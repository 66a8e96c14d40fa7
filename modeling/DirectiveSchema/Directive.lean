import DirectiveSchema.Container
import DirectiveSchema.Display
import DirectiveSchema.Equality

/-!
Directive definitions. A definition is checked once, when it is built: it has to have a name, a
valid one, and its locations have to be a list or a tuple. It copies its locations and arguments
into tuples, is noted, and never changes afterwards.
-/
namespace DirectiveSchema.Directives

/-- A datum that is a valid name; any other is refused. -/
def assertName (supply : Supplier) (v : Value) : Action { name : Value // name.isName = true } :=
  if named : v.isName = true then pure ⟨v, named⟩
  else do throw (.invalidName (← Display.label supply v) v)

theorem isTruthy_of_isName {v : Value} (named : v.isName = true) (s : Session) :
    Container.isTruthy v s = .ok true s := by
  cases v with
  | text t =>
    have nonempty : t ≠ "" := by
      rintro rfl
      cases named
    show EStateM.Result.ok (t != "") s = _
    rw [bne_iff_ne.2 nonempty]
  | location l => rfl
  | _ => cases named

theorem assertName_of_isName {supply : Supplier} {v : Value} (named : v.isName = true)
    (s : Session) : assertName supply v s = .ok ⟨v, named⟩ s := by
  rw [assertName, dif_pos named]
  rfl

/-- The tuple of the elements of a datum; a tuple is its own. -/
def rowOf (v : Value) : Action Row :=
  match v with
  | .tuple tag items => pure ⟨tag, items⟩
  | _ => do Action.newRow (← Container.elements v)

/-- Locations are given as a list or a tuple. -/
def isLocationsList : Value → Bool
  | .list _ | .tuple _ _ | .config _ _ _ _ _ => true
  | _ => false

/-- The tuple of the arguments, empty when none are given. -/
def argsOf : Value → Action Row
  | .null => Action.newRow []
  | v => rowOf v

/-- Builds a directive and notes it. -/
def create (supply : Supplier) (name locations args description : Value) :
    Action (Ref .directive) := do
  unless ← Container.isTruthy name do throw .missingName
  let ⟨name, named⟩ ← assertName supply name
  unless isLocationsList locations do throw .missingLocations
  let args ← argsOf args
  let locations ← rowOf locations
  let shownName ← Display.label supply name
  let shownLocations ← locations.items.mapM (Display.label supply)
  let r ← Action.newDirective { name, named, description, locations, args }
  Action.note (.created shownName shownLocations)
  return r

/-- The configuration of a directive, with lists of its own. -/
def toConfig (r : Ref .directive) : Action Value := do
  let d := (← get).directive r
  let locations ← Action.newList d.locations.items
  let args ← Action.newList d.args.items
  return .config (← Action.freshTag) d.name (.list locations) (.list args) d.description

/-- Whether a directive may stand at a location. -/
def appliesTo (supply : Supplier) (r : Ref .directive) (location : Value) : Action Bool := do
  Equality.member supply ((← get).directive r).locations.items location

/-- The name of a directive as a text. -/
def nameText (v : Value) : String := v.text?.getD ""

/-- The names of the directives that every schema has. -/
def specifiedNames : List String := ["include", "skip"]

/-- Whether a datum is a directive with the name of one that every schema has. -/
def isSpecified (v : Value) : Action Bool :=
  match v with
  | .directive r => return specifiedNames.contains (nameText ((← get).directive r).name)
  | _ => pure false

end DirectiveSchema.Directives

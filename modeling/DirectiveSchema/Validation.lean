import DirectiveSchema.Directive

/-!
Validation of a collection of directives that one schema exposes. Directives are checked in order:
each entry is a directive with a name of its own, and each of its arguments is an argument with a
valid name of its own and an input type. Missing and unknown locations are only warned of.
-/
namespace DirectiveSchema.Validation

/-- Warns of an unknown location. A location that cannot be written goes without a warning: a
notice that fails does not concern the validation. -/
def warnUnknown (supply : Supplier) (name : String) (v : Value) : Action Unit :=
  tryCatch (do Action.note (.unknownLocation (← Display.literal supply v) name)) fun _ => pure ()

/-- Warns of each unknown location. -/
def warnLocations (supply : Supplier) (name : String) : List Value → Action Unit
  | [] => pure ()
  | v :: rest => do
    unless v.isLocation do warnUnknown supply name v
    warnLocations supply name rest

/-- Warns of missing and of unknown locations. -/
def checkLocations (supply : Supplier) (name : String) (locations : List Value) : Action Unit := do
  if locations.isEmpty then Action.note (.noLocation name)
  warnLocations supply name locations

/-- The name of an argument; an invalid one is a fault of the schema. -/
def argumentName (supply : Supplier) (r : Ref .argument) : Action Value :=
  tryCatch (do return (← Directives.assertName supply (← Arguments.name r)).val) fun f =>
    throw (if f.kind.isA .invalidName then .invalidArgumentName f else f)

/-- Checks the arguments of a directive in order. Texts for messages are made before each check. -/
def checkArguments (supply : Supplier) (directive : String) (seen : List String) :
    List Value → Action Unit
  | [] => pure ()
  | a :: rest => do
    let shown ← Display.label supply a
    match a with
    | .argument r =>
      let name := Directives.nameText (← argumentName supply r)
      if seen.contains name then throw (.duplicateArgument name directive)
      let ok ← Types.isInput supply (← Arguments.type supply r)
      let shownType ← Display.label supply (← Arguments.type supply r)
      unless ok do throw (.notInputType name directive shownType)
      checkArguments supply directive (name :: seen) rest
    | _ => throw (.notArgument directive shown)

/-- Checks directives in order, given the names seen before. -/
def checkDirectives (supply : Supplier) (seen : List String) : List Value → Action Unit
  | [] => pure ()
  | v :: rest => do
    let shown ← Display.literal supply v
    match v with
    | .directive r =>
      let d := (← get).directive r
      let name := Directives.nameText d.name
      if seen.contains name then throw (.duplicateDirective name)
      checkLocations supply name d.locations.items
      checkArguments supply name [] d.args.items
      checkDirectives supply (name :: seen) rest
    | _ => throw (.notDirective shown)

/-- Validates a collection of directives. -/
def validate (supply : Supplier) (collection : Value) : Action Unit := do
  checkDirectives supply [] (← Container.elements collection)

end DirectiveSchema.Validation

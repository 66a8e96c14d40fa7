import DirectiveSchema.BuiltIn
import DirectiveSchema.Container.Keyed

/-!
Deep copies. What is reached is copied once, and its copy is used wherever it is met again. Lists,
dictionaries, types and arguments are remembered before their parts are copied; all other objects
are built from the copies of their parts. Plain data, directives and the built-in scalars stay
themselves, and so does a tuple whose elements do. A deferred type has no copy.
-/
namespace DirectiveSchema.DeepCopy

/-- Objects and their copies, the latest first. -/
abbrev Memo := List (Value × Value)

/-- The copy of an object. -/
def Memo.find? (memo : Memo) (v : Value) : Option Value :=
  (List.find? (fun p => p.1.same v) memo).map Prod.snd

/-- The latest copy of an object is the one that is used. -/
theorem Memo.find?_cons_self (memo : Memo) (v copy : Value) :
    Memo.find? ((v, copy) :: memo) v = some copy := by
  simp [Memo.find?, Value.same_refl]

abbrev Copying := StateT Memo Action

/-- Remembers the copy of an object. -/
def remember (v copy : Value) : Copying Value := modifyGet fun memo => (copy, (v, copy) :: memo)

/-- Whether two lists hold the same objects. -/
def sameItems (xs ys : List Value) : Bool := (xs.zip ys).all fun p => p.1.same p.2

/-- Copies an optional part. -/
def part (f : Value → Copying Value) : Option Value → Copying (Option Value)
  | none => pure none
  | some v => return some (← f v)

def attributes (f : Value → Copying Value) (as : Attributes) : Copying Attributes :=
  as.mapM fun p => return (p.1, ← f p.2)

/-- Assigns the copy of an entry. -/
def addEntry (supply : Supplier) (f : Value → Copying Value) (entries : List Entry) (e : Entry) :
    Copying (List Entry) := do
  let value ← f e.value
  let key ← f e.key
  liftM (Container.assign supply entries key value)

/-- Copies an object that was not met before; `f` copies its parts. -/
def ofObject (supply : Supplier) (f : Value → Copying Value) (v : Value) : Copying Value := do
  match v with
  | .foreign _ text => remember v (.foreign (← liftM Action.freshTag) text)
  | .tuple _ items =>
    let copies ← items.mapM f
    match (← get).find? v with
    | some copy => return copy
    | none =>
      if sameItems items copies then return v
      remember v (← liftM (Action.newRow copies)).value
  | .config _ name locations args description =>
    let name ← f name
    let locations ← f locations
    let args ← f args
    let description ← f description
    remember v (.config (← liftM Action.freshTag) name locations args description)
  | .list r =>
    let items := (← getThe Session).list r
    let new ← liftM (Action.newList [])
    let copy ← remember v (.list new)
    let copies ← items.mapM f
    modifyThe Session fun s => s.putList new copies
    return copy
  | .set r =>
    let copies ← ((← getThe Session).set r).mapM fun m => f m.value
    let members ← liftM (Container.distinct supply copies)
    remember v (.set (← liftM (Action.newSet members)))
  | .dict r =>
    let entries := (← getThe Session).dict r
    let new ← liftM (Action.newDict [])
    let copy ← remember v (.dict new)
    let copies ← entries.foldlM (addEntry supply f) []
    modifyThe Session fun s => s.putDict new copies
    return copy
  | .named r =>
    let cell := (← getThe Session).namedType r
    let new ← liftM (Action.newNamedType .blank)
    let copy ← remember v (.named new)
    let name ← part f cell.name
    let extra ← attributes f cell.extra
    modifyThe Session fun s => s.putNamedType new { name, extra }
    return copy
  | .scalar r =>
    if BuiltIn.isScalar r then return v
    let cell := (← getThe Session).scalar r
    let description ← liftM (Arguments.present "ScalarType" "description" cell.description)
    let name ← f (Display.typeName cell.name)
    let description ← f description
    remember v (.scalar (← liftM (Action.newScalar
      { cell with name := some name, description := some description, extra := [] })))
  | .wrapper w r =>
    let _ ← liftM (Types.wrapped supply w r)
    let t ← liftM (Types.wrapped supply w r)
    let new ← liftM (Action.newWrapper .blank)
    let copy ← remember v (.wrapper w new)
    let t ← f t
    modifyThe Session fun s => s.putWrapper new (Types.known t)
    return copy
  | .argument r =>
    let t ← liftM (Arguments.type supply r)
    let cell := (← getThe Session).argument r
    let new ← liftM (Action.newArgument .blank)
    let copy ← remember v (.argument new)
    let name ← part f cell.name
    let description ← part f cell.description
    let hasDefault ← part f cell.hasDefault
    let default ← part f cell.default
    let t ← f t
    let extra ← attributes f cell.extra
    modifyThe Session fun s => s.putArgument new
      { name, description, hasDefault, default, source := t, resolved := Types.kept t, extra }
    return copy
  | .deferred _ => throw .uncopyable
  | _ => return v

/-- Copies a datum of at most the given depth. -/
def copyWithin (supply : Supplier) : Nat → Value → Copying Value
  | 0, _ => throw .endless
  | n + 1, v => do
    match (← get).find? v with
    | some copy => return copy
    | none => ofObject supply (copyWithin supply n) v

/-- The deep copy of a datum. -/
def copy (supply : Supplier) (v : Value) : Action Value :=
  Action.boundedPairs v.depth fun n => return (← (copyWithin supply n v).run []).1

end DirectiveSchema.DeepCopy

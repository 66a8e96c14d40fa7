import DirectiveSchema.Container.Keyed
import DirectiveSchema.Directive

/-!
Evaluation of declaration expressions in a session. Fields are evaluated in their order, and then
the object is built. A deferred type is counted and then evaluated each time it is called;
`supplier` ties the two together.
-/
namespace DirectiveSchema

/-- The fields, of those given by name, that have no value. -/
def missingOf (fields : List (String × Bool)) : List String :=
  (fields.filter fun f => !f.2).map Prod.fst

namespace Expression

/-- The function that builds a directive, as it is named when fields are missing. -/
def builder : Route → String
  | .constructor => "Directive.__init__"
  | .config => "DirectiveConfig.__new__"

def buildArgument (name type default description : Option Value) : Action Value :=
  match name, type with
  | some name, some type =>
    return .argument (← Arguments.create name type default (description.getD .null))
  | _, _ =>
    throw (.missingFields "Argument.__init__"
      (missingOf [("name", name.isSome), ("type_", type.isSome)]))

def buildDirective (supply : Supplier) (route : Route)
    (name locations args description : Option Value) : Action Value :=
  match name, locations with
  | some name, some locations =>
    return .directive (← Directives.create supply name locations (args.getD .null)
      (description.getD .null))
  | _, _ =>
    throw (.missingFields (builder route)
      (missingOf [("name", name.isSome), ("locations", locations.isSome)]))

def buildScalar (name : Option Value) (serialize parse : Coercion) (description : Option Value) :
    Action Value :=
  match name with
  | some name =>
    return .scalar (← Action.newScalar
      { name := some name, description := some (description.getD .null), serialize, parse,
        extra := [] })
  | none => throw (.missingFields "ScalarType.__init__" ["name"])

/-- The datum that is bound to a name. -/
def lookup (name : String) : Action Value := do
  match (← get).binding? name with
  | some v => pure v
  | none => throw (.unbound name)

end Expression

mutual

/-- The value of an expression. -/
def Expression.eval (supply : Supplier) : Expression → Action Value
  | .null => pure .null
  | .bool b => pure (.bool b)
  | .int n => pure (.int n)
  | .float (.nan _) => return .float (.nan (← Action.freshTag))
  | .float x => pure (.float x)
  | .text s => pure (.text s)
  | .bytes bs => pure (.bytes bs)
  | .location l => pure (.location l)
  | .foreign text => return .foreign (← Action.freshTag) text
  | .list items => do
    let items ← evalAll supply items
    return .list (← Action.newList items)
  | .tuple items => do
    let items ← evalAll supply items
    return (← Action.newRow items).value
  | .set items => do
    let items ← evalAll supply items
    let items ← Container.distinct supply items
    return .set (← Action.newSet items)
  | .dict entries => do
    let entries ← evalEntries supply entries
    let entries ← Container.dictionary supply entries
    return .dict (← Action.newDict entries)
  | .ref name => Expression.lookup name
  | .type t => t.eval supply
  | .argument name type default description => do
    let name ← evalField supply name
    let type ← evalTypeField supply type
    let default ← evalField supply default
    let description ← evalField supply description
    Expression.buildArgument name type default description
  | .directive route name locations args description => do
    let name ← evalField supply name
    let locations ← evalField supply locations
    let args ← evalField supply args
    let description ← evalField supply description
    Expression.buildDirective supply route name locations args description

/-- The value of a type expression; a deferred one is not called. -/
def TypeExpression.eval (supply : Supplier) : TypeExpression → Action Value
  | .ref name => Expression.lookup name
  | .wrap w t => do Types.wrap w (← t.eval supply)
  | .named name => return .named (← Action.newNamedType { name := name.map .text, extra := [] })
  | .scalar name serialize parse description => do
    let name ← evalField supply name
    let serialize ← serialize.eval supply
    let parse ← parse.eval supply
    let description ← evalField supply description
    Expression.buildScalar name serialize parse description
  | .value v => v.eval supply
  | .deferred counter t => return .deferred ⟨← Action.freshTag, counter, t⟩
  | .raising kind message => throw (.raised kind message)

def CoercionExpression.eval (supply : Supplier) : CoercionExpression → Action Coercion
  | .identity => pure .identity
  | .label => pure .label
  | .integer => pure .integer
  | .float => pure .float
  | .constant v => return .constant (← v.eval supply)
  | .raising kind message => pure (.raising kind message)

def evalAll (supply : Supplier) : List Expression → Action (List Value)
  | [] => pure []
  | e :: es => do
    let v ← e.eval supply
    return v :: (← evalAll supply es)

def evalEntries (supply : Supplier) : List (Expression × Expression) → Action (List (Value × Value))
  | [] => pure []
  | (k, v) :: es => do
    let k ← k.eval supply
    let v ← v.eval supply
    return (k, v) :: (← evalEntries supply es)

def evalField (supply : Supplier) : Option Expression → Action (Option Value)
  | none => pure none
  | some e => return some (← e.eval supply)

def evalTypeField (supply : Supplier) : Option TypeExpression → Action (Option Value)
  | none => pure none
  | some t => return some (← t.eval supply)

end

namespace Deferred

/-- Counts the call and evaluates the body. -/
def evaluate (supply : Supplier) (d : Deferred) : Action Value := do
  modify fun s => { s with calls := d.counter :: s.calls }
  d.body.eval supply

/-- Answers the call of a deferred type, with at most the given number of calls inside it. A body
that stands for a datum which is there has none inside, and is answered in any case. -/
def callWithin : Nat → List Value → Deferred → Action Value
  | 0, writing, d =>
    if d.body.isStanding then d.evaluate ⟨writing, fun _ _ => throw .endless⟩ else throw .endless
  | n + 1, writing, d => d.evaluate ⟨writing, callWithin n⟩

/-- Calls deferred types while nothing is being written. -/
def supplier : Supplier :=
  ⟨[], fun writing d => Action.bounded d.body.weight fun n => callWithin n writing d⟩

end Deferred

end DirectiveSchema

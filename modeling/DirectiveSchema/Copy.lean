import DirectiveSchema.Copy.Deep
import DirectiveSchema.Snapshot

/-!
Copies of data, of three kinds. A shallow copy makes one new object over the same parts, a deep one
copies the parts as well, and a stored one is taken down and built anew.
-/
namespace DirectiveSchema

inductive CopyMode where
  | shallow
  | deep
  | stored
deriving DecidableEq, Inhabited, Repr

namespace Value

/-- One new object over the same parts. Tuples, directives, the built-in scalars and plain data have
no copy but themselves. -/
def shallowCopy (supply : Supplier) (v : Value) : Action Value := do
  match v with
  | .foreign _ shown => return .foreign (← Action.freshTag) shown
  | .config _ name locations args description =>
    return .config (← Action.freshTag) name locations args description
  | .list r => return .list (← Action.newList ((← get).list r))
  | .set r => return .set (← Action.newSet ((← get).set r))
  | .dict r => return .dict (← Action.newDict ((← get).dict r))
  | .named r => return .named (← Action.newNamedType ((← get).namedType r))
  | .scalar r =>
    if BuiltIn.isScalar r then return v
    let cell := (← get).scalar r
    let description ← Arguments.present "ScalarType" "description" cell.description
    return .scalar (← Action.newScalar
      { cell with
        name := some (Display.typeName cell.name)
        description := some description
        extra := [] })
  | .wrapper w r =>
    let _ ← Types.wrapped supply w r
    let t ← Types.wrapped supply w r
    return .wrapper w (← Action.newWrapper (Types.known t))
  | .argument r =>
    let t ← Arguments.type supply r
    let cell := (← get).argument r
    return .argument (← Action.newArgument { cell with source := t, resolved := Types.kept t })
  | .deferred _ => throw .uncopyable
  | _ => return v

/-- A copy of a datum. -/
def copy (supply : Supplier) (mode : CopyMode) (v : Value) : Action Value :=
  match mode with
  | .shallow => v.shallowCopy supply
  | .deep => DeepCopy.copy supply v
  | .stored => Snapshot.copy supply v

end Value

end DirectiveSchema

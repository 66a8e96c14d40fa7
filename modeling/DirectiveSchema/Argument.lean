import DirectiveSchema.Types.Wrapping

/-!
Arguments of directives: a name, a type that may be deferred, and a default that may be unset.
Reading an attribute that was deleted is a fault.
-/
namespace DirectiveSchema.Arguments

/-- An attribute of a class, which is missing once it was deleted. -/
def present (className key : String) : Option Value → Action Value
  | some v => pure v
  | none => throw (.noAttribute className key)

/-- A new argument; `default` is none when no default was given. -/
def create (name source : Value) (default : Option Value) (description : Value) :
    Action (Ref .argument) :=
  Action.newArgument {
    name := some name
    description := some description
    hasDefault := some (.bool default.isSome)
    default
    source
    resolved := none
    extra := [] }

def name (r : Ref .argument) : Action Value := do
  present "Argument" "name" ((← get).argument r).name

def description (r : Ref .argument) : Action Value := do
  present "Argument" "description" ((← get).argument r).description

def hasDefault (r : Ref .argument) : Action Value := do
  present "Argument" "has_default_value" ((← get).argument r).hasDefault

def default (r : Ref .argument) : Action Value := do
  match ((← get).argument r).default with
  | some v => pure v
  | none => throw .noDefault

/-- The type of an argument, resolved on the first access. -/
def type (supply : Supplier) (r : Ref .argument) : Action Value := do
  let cell := (← get).argument r
  match cell.resolved with
  | some t => pure t
  | none =>
    let t ← Types.demand supply cell.source
    modify fun s => s.putArgument r { s.argument r with resolved := Types.kept t }
    pure t

section

variable {supply : Supplier} {r : Ref .argument} {s s' : Session} {t : Value}

theorem type_of_resolved (h : (s.argument r).resolved = some t) : type supply r s = .ok t s := by
  simp only [type, Action.get_bind, h]
  rfl

theorem type_of_demand (unresolved : (s.argument r).resolved = none)
    (answered : Types.demand supply (s.argument r).source s = .ok t s') :
    type supply r s =
      .ok t (s'.putArgument r { s'.argument r with resolved := Types.kept t }) := by
  simp only [type, Action.get_bind, unresolved]
  simp only [bind, EStateM.bind, answered]
  rfl

theorem type_of_fault {f : Fault} (unresolved : (s.argument r).resolved = none)
    (failed : Types.demand supply (s.argument r).source s = .error f s') :
    type supply r s = .error f s' := by
  simp only [type, Action.get_bind, unresolved]
  simp only [bind, EStateM.bind, failed]

end

/-! Reading an attribute leaves the session as it is. -/

theorem name_eq (r : Ref .argument) (s : Session) :
    name r s = present "Argument" "name" (s.argument r).name s := rfl

theorem description_eq (r : Ref .argument) (s : Session) :
    description r s = present "Argument" "description" (s.argument r).description s := rfl

theorem hasDefault_eq (r : Ref .argument) (s : Session) :
    hasDefault r s = present "Argument" "has_default_value" (s.argument r).hasDefault s := rfl

/-- An argument is required when it is non-null and has no stored default. -/
def required (supply : Supplier) (r : Ref .argument) : Action Bool := do
  let t ← type supply r
  return t.isNonNull && ((← get).argument r).default.isNone

end DirectiveSchema.Arguments

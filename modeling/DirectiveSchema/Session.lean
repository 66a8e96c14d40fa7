import DirectiveSchema.Arena
import DirectiveSchema.Fault
import DirectiveSchema.HashKey
import DirectiveSchema.Notice

/-!
A session holds the cells of all objects, the names bound so far, the calls of deferred types and
the notices. An `Action` runs in a session: it ends in a result or in a fault, and what it did to
the session before a fault stays done.
-/
namespace DirectiveSchema

structure Session where
  lists : Arena (List Value)
  sets : Arena (List Member)
  dicts : Arena (List Entry)
  namedTypes : Arena NamedType
  scalars : Arena ScalarType
  wrappers : Arena WrappingType
  arguments : Arena Argument
  directives : Arena Directive
  /-- The least identity that is not in use; zero is the identity of the empty tuple. -/
  nextTag : Nat
  bindings : List (String × Value)
  /-- The counters of the calls of deferred types, the latest first. -/
  calls : List String
  journal : List Notice
deriving Inhabited

abbrev Action := EStateM Fault Session

/-- Answers the calls of deferred types. A call that is made while containers are being written
knows which they are. -/
structure Supplier where
  writing : List Value
  answer : List Value → Deferred → Action Value

namespace Supplier

/-- Calls a deferred type. -/
def call (supply : Supplier) (d : Deferred) : Action Value := supply.answer supply.writing d

/-- Whether a container is being written. -/
def isWriting (supply : Supplier) (v : Value) : Bool := supply.writing.any v.same

/-- The supplier while a container is being written. -/
def within (supply : Supplier) (v : Value) : Supplier :=
  { supply with writing := v :: supply.writing }

/-- Inside a container, the container itself is being written. -/
@[simp] theorem isWriting_within (supply : Supplier) (v : Value) :
    (supply.within v).isWriting v = true := by
  simp [isWriting, within, Value.same_refl]

/-- Inside a container, those around it are still being written. -/
theorem isWriting_within_of_isWriting {supply : Supplier} {u v : Value}
    (h : supply.isWriting v = true) : (supply.within u).isWriting v = true := by
  simp only [isWriting] at h
  simp [isWriting, within, h]

end Supplier

namespace Session

def list (s : Session) (r : Ref .list) : List Value := s.lists.get r.index

def set (s : Session) (r : Ref .set) : List Member := s.sets.get r.index

def dict (s : Session) (r : Ref .dict) : List Entry := s.dicts.get r.index

def namedType (s : Session) (r : Ref .named) : NamedType := s.namedTypes.get r.index

def scalar (s : Session) (r : Ref .scalar) : ScalarType := s.scalars.get r.index

def wrapper (s : Session) (r : Ref .wrapper) : WrappingType := s.wrappers.get r.index

def argument (s : Session) (r : Ref .argument) : Argument := s.arguments.get r.index

def directive (s : Session) (r : Ref .directive) : Directive := s.directives.get r.index

def putList (s : Session) (r : Ref .list) (c : List Value) : Session :=
  { s with lists := s.lists.put r.index c }

def putSet (s : Session) (r : Ref .set) (c : List Member) : Session :=
  { s with sets := s.sets.put r.index c }

def putDict (s : Session) (r : Ref .dict) (c : List Entry) : Session :=
  { s with dicts := s.dicts.put r.index c }

def putNamedType (s : Session) (r : Ref .named) (c : NamedType) : Session :=
  { s with namedTypes := s.namedTypes.put r.index c }

def putScalar (s : Session) (r : Ref .scalar) (c : ScalarType) : Session :=
  { s with scalars := s.scalars.put r.index c }

def putWrapper (s : Session) (r : Ref .wrapper) (c : WrappingType) : Session :=
  { s with wrappers := s.wrappers.put r.index c }

def putArgument (s : Session) (r : Ref .argument) (c : Argument) : Session :=
  { s with arguments := s.arguments.put r.index c }

/-- The latest binding of a name. -/
def binding? (s : Session) (name : String) : Option Value := s.bindings.lookup name

def bind (s : Session) (name : String) (v : Value) : Session :=
  { s with bindings := (name, v) :: s.bindings }

/-- How often deferred types with this counter were called. -/
def callCount (s : Session) (counter : String) : Nat := s.calls.count counter

/-- The objects that the call of a deferred type may add. -/
def sourceWeight : Value → Nat
  | .deferred d => d.body.weight
  | _ => 0

/-- The data that the cells of a session hold. -/
def contents (s : Session) : List Value :=
  s.lists.toList.flatten ++ s.sets.toList.flatMap (·.map Member.value) ++
    s.dicts.toList.flatMap (·.flatMap Entry.contents) ++
    s.namedTypes.toList.flatMap NamedType.contents ++
    s.scalars.toList.flatMap ScalarType.contents ++ s.wrappers.toList.flatMap WrappingType.contents ++
    s.arguments.toList.flatMap Argument.contents ++ s.directives.toList.flatMap Directive.contents

/-- How deep tuples lie in each other, in any cell. -/
def depth (s : Session) : Nat := Value.depths s.contents

/-- A bound on the depth of any nesting that does not run in a circle: an object is nested only in
objects that exist, or that a deferred type still has to create. -/
def reach (s : Session) : Nat :=
  s.depth + s.nextTag + s.lists.size + s.sets.size + s.dicts.size + s.namedTypes.size +
    s.scalars.size + s.wrappers.size + s.arguments.size + s.directives.size +
    s.wrappers.toList.foldr (fun c n => (c.source.elim 0 sourceWeight) + n) 0 +
    s.arguments.toList.foldr (fun c n => sourceWeight c.source + n) 0 +
    s.bindings.foldr (fun p n => sourceWeight p.2 + n) 0

end Session

namespace Action

/-- What follows the reading of a session works on that session. -/
theorem get_bind {α : Type} (f : Session → Action α) (s : Session) :
    (MonadState.get >>= f) s = f s s := rfl

/-- A new identity. -/
def freshTag : Action Nat :=
  modifyGet fun s => (s.nextTag, { s with nextTag := s.nextTag + 1 })

/-- A new tuple; all empty tuples are one object. -/
def newRow (items : List Value) : Action Row :=
  match items with
  | [] => pure ⟨0, []⟩
  | _ => return ⟨← freshTag, items⟩

def newList (items : List Value) : Action (Ref .list) :=
  modifyGet fun s => (⟨s.lists.size⟩, { s with lists := s.lists.add items })

def newSet (items : List Member) : Action (Ref .set) :=
  modifyGet fun s => (⟨s.sets.size⟩, { s with sets := s.sets.add items })

def newDict (entries : List Entry) : Action (Ref .dict) :=
  modifyGet fun s => (⟨s.dicts.size⟩, { s with dicts := s.dicts.add entries })

def newNamedType (c : NamedType) : Action (Ref .named) :=
  modifyGet fun s => (⟨s.namedTypes.size⟩, { s with namedTypes := s.namedTypes.add c })

def newScalar (c : ScalarType) : Action (Ref .scalar) :=
  modifyGet fun s => (⟨s.scalars.size⟩, { s with scalars := s.scalars.add c })

def newWrapper (c : WrappingType) : Action (Ref .wrapper) :=
  modifyGet fun s => (⟨s.wrappers.size⟩, { s with wrappers := s.wrappers.add c })

def newArgument (c : Argument) : Action (Ref .argument) :=
  modifyGet fun s => (⟨s.arguments.size⟩, { s with arguments := s.arguments.add c })

def newDirective (c : Directive) : Action (Ref .directive) :=
  modifyGet fun s => (⟨s.directives.size⟩, { s with directives := s.directives.add c })

def note (n : Notice) : Action Unit :=
  modify fun s => { s with journal := s.journal ++ [n] }

/-- Runs an action with a bound on nesting that fits the session and what lies outside of it. -/
def bounded {α : Type} (outside : Nat) (f : Nat → Action α) : Action α := do
  f ((← get).reach + outside + 1)

/-- Runs an action with a bound on the walks that meet no pair of objects twice: two objects that
are compared, or an object and the one that was last entered. -/
def boundedPairs {α : Type} (outside : Nat) (f : Nat → Action α) : Action α :=
  bounded outside fun n => f (n * n)

end Action

end DirectiveSchema

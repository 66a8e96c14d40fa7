import DirectiveSchema.Proofs.Census

/-!
Cells under one name. What a cell of any kind holds is a cell, and a session gives, adds and changes
cells by their kind and position. The type of a wrapper and the type of an argument are obtained
alike: it is the one that was kept, or the answer of the source.
-/
namespace DirectiveSchema

/-- What a cell of some kind holds. -/
inductive Cell where
  | list (items : List Value)
  | set (members : List Member)
  | dict (entries : List Entry)
  | named (c : NamedType)
  | scalar (c : ScalarType)
  | wrapper (c : WrappingType)
  | argument (c : Argument)
  | directive (c : Directive)

namespace Cell

def kind : Cell → CellKind
  | list _ => .list
  | set _ => .set
  | dict _ => .dict
  | named _ => .named
  | scalar _ => .scalar
  | wrapper _ => .wrapper
  | argument _ => .argument
  | directive _ => .directive

/-- What a type that is obtained later is obtained from. -/
def source? : Cell → Option Value
  | wrapper c => c.source
  | argument c => some c.source
  | _ => none

/-- The type that was kept. -/
def resolved? : Cell → Option Value
  | wrapper c => c.resolved
  | argument c => c.resolved
  | _ => none

/-- The cell that keeps an answer. -/
def resolve : Cell → Value → Cell
  | wrapper c, t => wrapper { c with resolved := Types.kept t }
  | argument c, t => argument { c with resolved := Types.kept t }
  | c, _ => c

def contents : Cell → List Value
  | list items => items
  | set members => members.map Member.value
  | dict entries => entries.flatMap Entry.contents
  | named c => c.contents
  | scalar c => c.contents
  | wrapper c => c.contents
  | argument c => c.contents
  | directive c => c.contents

/-- The weight of what may be called later. -/
def weight (c : Cell) : Nat := c.source?.elim 0 Session.sourceWeight

@[simp] theorem kind_resolve (c : Cell) (t : Value) : (c.resolve t).kind = c.kind := by
  cases c <;> rfl

@[simp] theorem source?_resolve (c : Cell) (t : Value) : (c.resolve t).source? = c.source? := by
  cases c <;> rfl

/-- What has a source keeps an answer. -/
theorem resolved?_resolve {c : Cell} {t source : Value} (based : c.source? = some source) :
    (c.resolve t).resolved? = Types.kept t := by
  cases c <;> first | rfl | cases based

end Cell

namespace Session

variable {s : Session} {k : CellKind} {i j : Nat} {c : Cell}

/-- The cell of a kind at a position. -/
def cell (s : Session) : CellKind → Nat → Cell
  | .list, i => .list (s.list ⟨i⟩)
  | .set, i => .set (s.set ⟨i⟩)
  | .dict, i => .dict (s.dict ⟨i⟩)
  | .named, i => .named (s.namedType ⟨i⟩)
  | .scalar, i => .scalar (s.scalar ⟨i⟩)
  | .wrapper, i => .wrapper (s.wrapper ⟨i⟩)
  | .argument, i => .argument (s.argument ⟨i⟩)
  | .directive, i => .directive (s.directive ⟨i⟩)

/-- How many identities of a sort are in use: tags, or cells of a kind. -/
def used (s : Session) : Option CellKind → Nat
  | none => s.nextTag
  | some k => s.count k

/-- The session with one cell more. -/
def add (s : Session) : Cell → Session
  | .list c => { s with lists := s.lists.add c }
  | .set c => { s with sets := s.sets.add c }
  | .dict c => { s with dicts := s.dicts.add c }
  | .named c => { s with namedTypes := s.namedTypes.add c }
  | .scalar c => { s with scalars := s.scalars.add c }
  | .wrapper c => { s with wrappers := s.wrappers.add c }
  | .argument c => { s with arguments := s.arguments.add c }
  | .directive c => { s with directives := s.directives.add c }

/-- The session with another content of a cell. -/
def put (s : Session) (i : Nat) : Cell → Session
  | .list c => s.putList ⟨i⟩ c
  | .set c => s.putSet ⟨i⟩ c
  | .dict c => s.putDict ⟨i⟩ c
  | .named c => s.putNamedType ⟨i⟩ c
  | .scalar c => s.putScalar ⟨i⟩ c
  | .wrapper c => s.putWrapper ⟨i⟩ c
  | .argument c => s.putArgument ⟨i⟩ c
  | .directive c => { s with directives := s.directives.put i c }

@[simp] theorem kind_cell (s : Session) (k : CellKind) (i : Nat) : (s.cell k i).kind = k := by
  cases k <;> rfl

@[simp] theorem bindings_add (s : Session) (c : Cell) : (s.add c).bindings = s.bindings := by
  cases c <;> rfl

@[simp] theorem bindings_put (s : Session) (i : Nat) (c : Cell) :
    (s.put i c).bindings = s.bindings := by
  cases c <;> rfl

theorem used_add (s : Session) (c : Cell) (k : Option CellKind) :
    (s.add c).used k = s.used k + if k = some c.kind then 1 else 0 := by
  cases k with
  | none => cases c <;> rfl
  | some k => cases c <;> cases k <;> simp [used, count, add, Cell.kind]

@[simp] theorem used_put (s : Session) (i : Nat) (c : Cell) (k : Option CellKind) :
    (s.put i c).used k = s.used k := by
  cases k with
  | none => cases c <;> rfl
  | some k =>
    cases c <;> cases k <;> first | rfl | exact Arena.size_put _ _ _

theorem cell_add_self (s : Session) (c : Cell) : (s.add c).cell c.kind (s.count c.kind) = c := by
  cases c with
  | list c => exact congrArg Cell.list (s.lists.get_add_self c)
  | set c => exact congrArg Cell.set (s.sets.get_add_self c)
  | dict c => exact congrArg Cell.dict (s.dicts.get_add_self c)
  | named c => exact congrArg Cell.named (s.namedTypes.get_add_self c)
  | scalar c => exact congrArg Cell.scalar (s.scalars.get_add_self c)
  | wrapper c => exact congrArg Cell.wrapper (s.wrappers.get_add_self c)
  | argument c => exact congrArg Cell.argument (s.arguments.get_add_self c)
  | directive c => exact congrArg Cell.directive (s.directives.get_add_self c)

theorem cell_add_of_lt (c : Cell) (live : i < s.count k) : (s.add c).cell k i = s.cell k i := by
  cases c with
  | list c => cases k <;> first | rfl | exact congrArg Cell.list (s.lists.get_add_of_lt c live)
  | set c => cases k <;> first | rfl | exact congrArg Cell.set (s.sets.get_add_of_lt c live)
  | dict c => cases k <;> first | rfl | exact congrArg Cell.dict (s.dicts.get_add_of_lt c live)
  | named c =>
    cases k <;> first | rfl | exact congrArg Cell.named (s.namedTypes.get_add_of_lt c live)
  | scalar c =>
    cases k <;> first | rfl | exact congrArg Cell.scalar (s.scalars.get_add_of_lt c live)
  | wrapper c =>
    cases k <;> first | rfl | exact congrArg Cell.wrapper (s.wrappers.get_add_of_lt c live)
  | argument c =>
    cases k <;> first | rfl | exact congrArg Cell.argument (s.arguments.get_add_of_lt c live)
  | directive c =>
    cases k <;> first | rfl | exact congrArg Cell.directive (s.directives.get_add_of_lt c live)

theorem cell_put_self (live : i < s.count c.kind) : (s.put i c).cell c.kind i = c := by
  cases c with
  | list c => exact congrArg Cell.list (s.lists.get_put_self c live)
  | set c => exact congrArg Cell.set (s.sets.get_put_self c live)
  | dict c => exact congrArg Cell.dict (s.dicts.get_put_self c live)
  | named c => exact congrArg Cell.named (s.namedTypes.get_put_self c live)
  | scalar c => exact congrArg Cell.scalar (s.scalars.get_put_self c live)
  | wrapper c => exact congrArg Cell.wrapper (s.wrappers.get_put_self c live)
  | argument c => exact congrArg Cell.argument (s.arguments.get_put_self c live)
  | directive c => exact congrArg Cell.directive (s.directives.get_put_self c live)

theorem cell_put_of_ne (other : k = c.kind → i ≠ j) : (s.put i c).cell k j = s.cell k j := by
  cases c with
  | list c =>
    cases k <;> first | rfl | exact congrArg Cell.list (s.lists.get_put_of_ne c (other rfl))
  | set c =>
    cases k <;> first | rfl | exact congrArg Cell.set (s.sets.get_put_of_ne c (other rfl))
  | dict c =>
    cases k <;> first | rfl | exact congrArg Cell.dict (s.dicts.get_put_of_ne c (other rfl))
  | named c =>
    cases k <;> first | rfl | exact congrArg Cell.named (s.namedTypes.get_put_of_ne c (other rfl))
  | scalar c =>
    cases k <;> first | rfl | exact congrArg Cell.scalar (s.scalars.get_put_of_ne c (other rfl))
  | wrapper c =>
    cases k <;> first | rfl | exact congrArg Cell.wrapper (s.wrappers.get_put_of_ne c (other rfl))
  | argument c =>
    cases k <;> first | rfl | exact congrArg Cell.argument (s.arguments.get_put_of_ne c (other rfl))
  | directive c =>
    cases k <;>
      first | rfl | exact congrArg Cell.directive (s.directives.get_put_of_ne c (other rfl))

/-- A cell that is not there cannot be changed. -/
theorem put_of_le (dead : s.count c.kind ≤ i) (k : CellKind) (j : Nat) :
    (s.put i c).cell k j = s.cell k j := by
  have beyond {α : Type} [Inhabited α] (a : Arena α) (x : α) (dead : a.size ≤ i) :
      (a.put i x).get j = a.get j := by
    rcases a.get_put_cases x i j with same | ⟨rfl, -⟩
    · exact same
    · rw [Arena.get_of_le dead, Arena.get_of_le (by rwa [Arena.size_put])]
  cases c with
  | list c => cases k <;> first | rfl | exact congrArg Cell.list (beyond s.lists c dead)
  | set c => cases k <;> first | rfl | exact congrArg Cell.set (beyond s.sets c dead)
  | dict c => cases k <;> first | rfl | exact congrArg Cell.dict (beyond s.dicts c dead)
  | named c => cases k <;> first | rfl | exact congrArg Cell.named (beyond s.namedTypes c dead)
  | scalar c => cases k <;> first | rfl | exact congrArg Cell.scalar (beyond s.scalars c dead)
  | wrapper c => cases k <;> first | rfl | exact congrArg Cell.wrapper (beyond s.wrappers c dead)
  | argument c => cases k <;> first | rfl | exact congrArg Cell.argument (beyond s.arguments c dead)
  | directive c =>
    cases k <;> first | rfl | exact congrArg Cell.directive (beyond s.directives c dead)

theorem cell_put_cases (s : Session) (c : Cell) (i : Nat) (k : CellKind) (j : Nat) :
    (s.put i c).cell k j = s.cell k j ∨ k = c.kind ∧ j = i ∧ (s.put i c).cell k j = c := by
  by_cases same : k = c.kind ∧ i = j
  · obtain ⟨rfl, rfl⟩ := same
    rcases Nat.lt_or_ge i (s.count c.kind) with live | dead
    · exact .inr ⟨rfl, rfl, cell_put_self live⟩
    · exact .inl (put_of_le dead _ _)
  · exact .inl (cell_put_of_ne fun kind at' => same ⟨kind, at'⟩)

/-- To put back what is there changes nothing. -/
@[simp] theorem put_cell (s : Session) (k : CellKind) (i : Nat) : s.put i (s.cell k i) = s := by
  cases k <;> simp [cell, put, putList, putSet, putDict, putNamedType, putScalar, putWrapper,
    putArgument, list, set, dict, namedType, scalar, wrapper, argument, directive]

end Session

namespace Action

/-- A new cell. -/
def newCell (c : Cell) : Action Nat := modifyGet fun s => (s.count c.kind, s.add c)

end Action

namespace Types

/-- The type that a cell keeps, or else what its source answers, which is kept. -/
def obtained (supply : Supplier) (k : CellKind) (i : Nat) (missing : Fault) : Action Value := do
  let cell := (← get).cell k i
  match cell.resolved?, cell.source? with
  | some t, _ => pure t
  | none, some source =>
    let t ← demand supply source
    modify fun s => s.put i ((s.cell k i).resolve t)
    pure t
  | none, none => throw missing

theorem wrapped_eq (supply : Supplier) (w : Wrapper) (r : Ref .wrapper) :
    wrapped supply w r = obtained supply .wrapper r.index (.noAttribute w.className "_type") := rfl

theorem type_eq (supply : Supplier) (q : Ref .argument) :
    Arguments.type supply q = obtained supply .argument q.index .endless := by
  funext s
  simp only [Arguments.type, obtained, Action.get_bind]
  cases resolved : (s.argument q).resolved with
  | some t =>
    have same : (s.cell .argument q.index).resolved? = some t := resolved
    rw [same]
  | none =>
    have same : (s.cell .argument q.index).resolved? = none := resolved
    rw [same]
    rfl

section

variable {supply : Supplier} {k : CellKind} {i : Nat} {missing : Fault} {s s' : Session}
  {source t : Value}

theorem obtained_of_resolved (h : (s.cell k i).resolved? = some t) :
    obtained supply k i missing s = .ok t s := by
  simp only [obtained, Action.get_bind, h]
  rfl

theorem obtained_of_demand (unresolved : (s.cell k i).resolved? = none)
    (based : (s.cell k i).source? = some source) (answered : demand supply source s = .ok t s') :
    obtained supply k i missing s = .ok t (s'.put i ((s'.cell k i).resolve t)) := by
  simp only [obtained, Action.get_bind, unresolved, based]
  rw [Action.bind_of_ok answered]
  rfl

theorem obtained_of_fault {f : Fault} (unresolved : (s.cell k i).resolved? = none)
    (based : (s.cell k i).source? = some source) (failed : demand supply source s = .error f s') :
    obtained supply k i missing s = .error f s' := by
  simp only [obtained, Action.get_bind, unresolved, based]
  rw [Action.bind_of_error failed]

theorem obtained_of_blank (unresolved : (s.cell k i).resolved? = none)
    (blank : (s.cell k i).source? = none) :
    obtained supply k i missing s = .error missing s := by
  simp only [obtained, Action.get_bind, unresolved, blank]
  rfl

end

end Types

end DirectiveSchema

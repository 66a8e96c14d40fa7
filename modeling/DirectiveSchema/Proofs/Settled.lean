import DirectiveSchema.Proofs.Restoring

/-!
What later sessions keep of data. Plain data stay what they are, and so do types once they are
known. What was met while a picture is taken is settled: types are known, and the types that they
depend on were met as well.
-/
namespace DirectiveSchema

variable {s s' u : Session} {v x : Value} {n : Nat} {seen seen' : List Value}

/-- The type of a wrapper or of an argument, once it is known. -/
def Body.type? : Body → Option Value
  | .wrapper _ c => c.resolved
  | .argument c => c.resolved
  | _ => none

/-- What an argument holds besides its type. -/
def Argument.data (c : Argument) : List Value :=
  c.name.toList ++ c.description.toList ++ c.hasDefault.toList ++ c.default.toList ++
    c.extra.contents

theorem Argument.data_subset (c : Argument) : c.data ⊆ c.contents := by
  intro x hx
  simp only [Argument.data, List.mem_append, Argument.contents, List.mem_cons] at hx ⊢
  rcases hx with (((hx | hx) | hx) | hx) | hx <;> simp only [hx, true_or, or_true]

theorem Argument.Settles.data {c c' : Argument} (h : c.Settles c') : c'.data = c.data := by
  rw [Argument.data, h.name, h.description, h.hasDefault, h.default, h.extra, Argument.data]

/-- Whether a datum is of a type that is resolved on demand. -/
def Value.isTyped : Value → Bool
  | .wrapper _ _ | .argument _ => true
  | _ => false

/-- The items of a tuple. -/
def Value.items : Value → List Value
  | .tuple _ items => items
  | _ => []

namespace Session

/-- Of what was met, types are known, and what depends on a type was met as well. -/
structure Settled (s : Session) (seen : List Value) (v : Value) : Prop where
  typed : v.isTyped = true → ∃ b t, s.body? v = some b ∧ b.type? = some t ∧ t.isNull = false ∧
    (t.isTyped = true → t ∈ seen)
  items {x : Value} : x ∈ v.items → x.isTyped = true → x ∈ seen

/-- What a datum is made of remains, but for types that are resolved. -/
theorem Extends.body_data {b : Body} (h : s.Extends u) (body : s.body? v = some b)
    (data : b.isData = true) : u.body? v = some b := by
  cases v with
  | tuple | config => exact body
  | list r =>
    obtain ⟨c, cell, rfl⟩ := Option.map_eq_some_iff.1 body
    obtain ⟨_, cell', rfl⟩ := h.lists.get? cell
    exact congrArg (Option.map Body.list) cell'
  | set r =>
    obtain ⟨c, cell, rfl⟩ := Option.map_eq_some_iff.1 body
    obtain ⟨_, cell', rfl⟩ := h.sets.get? cell
    exact congrArg (Option.map Body.set) cell'
  | dict r =>
    obtain ⟨c, cell, rfl⟩ := Option.map_eq_some_iff.1 body
    obtain ⟨_, cell', rfl⟩ := h.dicts.get? cell
    exact congrArg (Option.map Body.dict) cell'
  | wrapper | argument | directive =>
    obtain ⟨c, -, rfl⟩ := Option.map_eq_some_iff.1 body
    cases data
  | _ => cases body

theorem Extends.body_directive {r : Ref .directive} {d : Directive} (h : s.Extends u)
    (body : s.body? (.directive r) = some (.directive d)) :
    u.body? (.directive r) = some (.directive d) := by
  obtain ⟨_, cell, ⟨⟩⟩ := Option.map_eq_some_iff.1 body
  obtain ⟨_, cell', rfl⟩ := h.directives.get? cell
  exact congrArg (Option.map Body.directive) cell'

theorem Extends.body_wrapper {w : Wrapper} {r : Ref .wrapper} {c : WrappingType}
    (h : s.Extends u) (body : s.body? (.wrapper w r) = some (.wrapper w c)) :
    ∃ c', u.body? (.wrapper w r) = some (.wrapper w c') ∧ c.Settles c' := by
  obtain ⟨_, cell, ⟨⟩⟩ := Option.map_eq_some_iff.1 body
  obtain ⟨c', cell', settles⟩ := h.wrappers.get? cell
  exact ⟨c', congrArg (Option.map (Body.wrapper w)) cell', settles⟩

theorem Extends.body_argument {q : Ref .argument} {c : Argument} (h : s.Extends u)
    (body : s.body? (.argument q) = some (.argument c)) :
    ∃ c', u.body? (.argument q) = some (.argument c') ∧ c.Settles c' := by
  obtain ⟨_, cell, ⟨⟩⟩ := Option.map_eq_some_iff.1 body
  obtain ⟨c', cell', settles⟩ := h.arguments.get? cell
  exact ⟨c', congrArg (Option.map Body.argument) cell', settles⟩

theorem Settled.extends (h : s.Settled seen v) (extension : s.Extends u) (more : seen ⊆ seen') :
    u.Settled seen' v := by
  refine ⟨fun typed => ?_, fun hx typed => more (h.items hx typed)⟩
  obtain ⟨b, t, body, known, nonNull, met⟩ := h.typed typed
  cases v with
  | wrapper w r =>
    obtain ⟨c, -, rfl⟩ := Option.map_eq_some_iff.1 body
    obtain ⟨c', body', settles⟩ := extension.body_wrapper body
    exact ⟨.wrapper w c', t, body', settles.resolved known, nonNull, fun h => more (met h)⟩
  | argument q =>
    obtain ⟨c, -, rfl⟩ := Option.map_eq_some_iff.1 body
    obtain ⟨c', body', settles⟩ := extension.body_argument body
    exact ⟨.argument c', t, body', settles.resolved known, nonNull, fun h => more (met h)⟩
  | _ => cases typed

/-- Nothing is asked of an object that has neither a type nor items. -/
theorem Settled.trivial (typed : v.isTyped = false) (items : v.items = []) : s.Settled seen v where
  typed h := by
    rw [typed] at h
    cases h
  items hx := by
    rw [items] at hx
    cases hx

/-- What is needed of a datum and of its parts to be plain: atoms, or objects that are made of data
and whose elements and keys are told apart by keys that no session decides. -/
def Plain (s : Session) (v : Value) : Prop :=
  match s.body? v with
  | none => v.isAtom = true
  | some b => b.isData = true ∧ b.Sound

/-- Plain data: finite nestings of atoms, tuples, records, lists, sets and dictionaries. -/
def IsPlain (s : Session) (v : Value) : Prop := ∃ n, s.Nests Plain n v

theorem plain_of_isAtom (h : v.isAtom = true) : s.Plain v := by
  rw [Plain, body?_of_isAtom h]
  exact h

theorem Extends.body?_eq (h : s.Extends u) (atom : s.body? v = none → v.isAtom = true)
    (data : ∀ b, s.body? v = some b → b.isData = true) : u.body? v = s.body? v := by
  cases body : s.body? v with
  | none => exact body?_of_isAtom (atom body) u
  | some b => exact h.body_data body (data b body)

/-- Plain data stay what they are. -/
theorem Extends.plain (h : s.Extends u) (nests : s.Nests Plain n v) : u.Nests Plain n v := by
  refine (nests.congr fun {v} plain => ?_).2 nests
  have same : u.body? v = s.body? v := h.body?_eq
    (fun none => by rwa [Plain, none] at plain)
    (fun b body => by rw [Plain, body] at plain; exact plain.1)
  exact ⟨by rwa [Plain, same], by rw [Session.parts, Session.parts, same]⟩

theorem Extends.writes (h : s.Extends u) (nests : s.Nests Writes n v) : u.Nests Writes n v := by
  refine (nests.congr fun {v} writes => ?_).2 nests
  have same : u.body? v = s.body? v := h.body?_eq
    (fun none => by rw [Writes, none] at writes; exact writes.1)
    (fun b body => by rwa [Writes, body] at writes)
  exact ⟨by rwa [Writes, same], by rw [Session.parts, Session.parts, same]⟩

theorem Plain.isSound (h : s.Plain v) : s.Sound v := by
  cases body : s.body? v with
  | none =>
    rw [Plain, body] at h
    rw [Sound, body]
    exact h
  | some b =>
    rw [Plain, body] at h
    rw [Sound, body]
    exact h.2

theorem Nests.sound (h : s.Nests Plain n v) : s.Nests Sound n v := h.imp fun _ => Plain.isSound

theorem Plain.isTyped_eq (h : s.Plain v) : v.isTyped = false := by
  cases v with
  | wrapper w r | argument r =>
    rw [Plain] at h
    split at h
    · cases h
    · rename_i b body
      obtain ⟨c, -, rfl⟩ := Option.map_eq_some_iff.1 body
      cases h.1
  | _ => rfl

end Session

/-- Data that hold no types, arguments or directives. -/
def Grade.plain : Grade where
  holds := Session.Plain
  isSound h := h.isSound

end DirectiveSchema

import DirectiveSchema.Proofs.Exchange
import DirectiveSchema.Proofs.Mirroring

/-!
Copies in later sessions. A type that is known stays what it is, and so do data; hence what is like
an object remains like it, whatever is observed or built afterwards. As long as it does, it is equal
to the object, hashes alike, and is a type that unwraps to the same scalar.
-/
namespace DirectiveSchema

open Action (Concur)

variable {s s' t t' u : Session} {supply : Supplier} {v x y z : Value} {m n N N' : Nat}

/-! ### What is observed and built -/

/-- One session comes of another when nothing is done but to observe data, to build objects, and to
fill those that were built. -/
def Session.Grows (s s' : Session) : Prop := ∀ R : Session → Session → Prop, Filling R → R s s'

namespace Session

theorem Grows.refl (s : Session) : s.Grows s := fun _ h => h.refl s

theorem Grows.trans (h : s.Grows t) (h' : t.Grows u) : s.Grows u :=
  fun R kept => kept.trans (h R kept) (h' R kept)

theorem Grows.extends (h : s.Grows t) : s.Extends t := h _ Session.Extends.filling

/-- What an action may be relied on to keep tells what comes of it. -/
theorem Grows.of_keeps {α : Type} {act : Action α} {a : α}
    (kept : ∀ R : Session → Session → Prop, Filling R → Keeps R act) (run : act s = .ok a t) :
    s.Grows t := fun R filling => (kept R filling).of_ok run

theorem Leads.grows (h : s.Leads t) : s.Grows t := fun _ kept => h.keeps kept.observed

end Session

/-! ### What endures -/

/-- Whether nothing is still to be known of an object. An argument without a name may be one that is
to be filled. -/
def Body.isFixed : Body → Bool
  | .wrapper _ c => c.resolved.isSome
  | .argument c => c.name.isSome && c.resolved.isSome
  | _ => true

theorem Argument.Complete.isFixed {c : Argument} (h : c.Complete) :
    (Body.argument c).isFixed = true := by
  rw [Body.isFixed, h.name, h.resolved]
  rfl

theorem Body.Fits.isFixed {b c : Body} (h : b.Fits c) : b.isFixed = true := by
  cases b <;> cases c <;> try first | rfl | exact h.elim
  case wrapper => exact h.2.1
  case argument => exact h.1.isFixed

theorem Body.Sound.isFixed {b : Body} (h : b.Sound) : b.isFixed = true := by
  cases b <;> try rfl
  case wrapper =>
    obtain ⟨t, resolved, -⟩ := h
    exact Option.isSome_of_mem resolved
  case argument => exact h.1.isFixed

theorem WrappingType.Settles.eq_of_resolved {c c' : WrappingType} (h : c.Settles c')
    (known : c.resolved = some v) : c' = c := by
  obtain ⟨source, resolved, extra⟩ := c
  obtain ⟨source', resolved', extra'⟩ := c'
  rw [WrappingType.mk.injEq]
  exact ⟨h.source, (h.resolved known).trans known.symm, h.extra⟩

theorem Argument.Settles.eq_of_resolved {c c' : Argument} (h : c.Settles c')
    (known : c.resolved = some v) : c' = c := by
  obtain ⟨name, description, hasDefault, default, source, resolved, extra⟩ := c
  obtain ⟨name', description', hasDefault', default', source', resolved', extra'⟩ := c'
  rw [Argument.mk.injEq]
  exact ⟨h.name, h.description, h.hasDefault, h.default, h.source,
    (h.resolved known).trans known.symm, h.extra⟩

namespace Session

/-- Objects of which nothing is still to be known stay what they are. -/
def Endures (t t' : Session) : Prop :=
  ∀ v b, b.isFixed = true → t.body? v = some b → t'.body? v = some b

theorem Agrees.endures (h : t.Agrees [] t') : t.Endures t' :=
  fun v b _ body => h v b List.not_mem_nil body

theorem Extends.endures (h : t.Extends t') : t.Endures t' := by
  intro v b fixed body
  cases b with
  | wrapper w c =>
    obtain ⟨r, rfl, -⟩ := makes_of_body body
    obtain ⟨c', body', settles⟩ := h.body_wrapper body
    obtain ⟨type, resolved⟩ := Option.isSome_iff_exists.1 fixed
    rw [body', settles.eq_of_resolved resolved]
  | argument c =>
    obtain ⟨q, rfl, -⟩ := makes_of_body body
    obtain ⟨c', body', settles⟩ := h.body_argument body
    obtain ⟨type, resolved⟩ := Option.isSome_iff_exists.1 (Bool.and_eq_true_iff.1 fixed).2
    rw [body', settles.eq_of_resolved resolved]
  | directive d =>
    obtain ⟨r, rfl, -⟩ := makes_of_body body
    exact h.body_directive body
  | _ => exact h.body_data body rfl

theorem Alike.endures (h : t.Alike n x y) (endures : t.Endures t') : t'.Alike n x y := by
  induction n generalizing x y with
  | zero => cases h
  | succ n ih =>
    rcases h with same | ⟨b, c, left, right, fits, parts⟩
    · exact .inl same
    · exact .inr ⟨b, c, endures x b fits.isFixed left, endures y c fits.symm.isFixed right, fits,
        parts.imp fun _ _ like => ih like⟩

theorem Alike.mono (h : t.Alike n x y) (le : n ≤ m) : t.Alike m x y := by
  induction n generalizing m x y with
  | zero => cases h
  | succ n ih =>
    obtain ⟨k, rfl⟩ : ∃ k, m = k + 1 := ⟨m - 1, by omega⟩
    exact h.imp_right fun ⟨b, c, left, right, fits, parts⟩ =>
      ⟨b, c, left, right, fits, parts.imp fun _ _ like => ih like (by omega)⟩

theorem Nests.endures (h : t.Nests Sound n v) (endures : t.Endures t') : t'.Nests Sound n v := by
  refine (h.congr fun {v} sound => ?_).2 h
  have same : t'.body? v = t.body? v := by
    cases body : t.body? v with
    | none =>
      rw [Sound, body] at sound
      exact body?_of_isAtom sound t'
    | some b =>
      rw [Sound, body] at sound
      exact endures v b sound.isFixed body
  exact ⟨by rwa [Sound, same], by rw [parts, parts, same]⟩

/-! ### What is alike -/

/-- A copy of an object of which nothing is still to be known. -/
structure Replicates (t : Session) (y x : Value) : Prop where
  like : ∃ n, t.Alike n y x
  nested : ∃ n, t.Nests Sound n x

namespace Replicates

theorem of_isAtom (atom : v.isAtom = true) (t : Session) : t.Replicates v v :=
  have sound : t.Sound v := by
    rw [Sound, body?_of_isAtom atom]
    exact atom
  ⟨⟨1, .inl ⟨rfl, atom⟩⟩, 1, .of_isAtom atom sound 0⟩

/-- An object that is made of copies of the parts of another one is a copy of it. -/
theorem of_body {b c : Body} (left : t.body? y = some b) (right : t.body? x = some c)
    (fits : b.Fits c) (sound : c.Sound) (parts : List.Forall₂ t.Replicates b.parts c.parts) :
    t.Replicates y x := by
  have like : ∃ n, List.Forall₂ (t.Alike n) b.parts c.parts := by
    generalize b.parts = ys, c.parts = xs at parts
    induction parts with
    | nil => exact ⟨0, .nil⟩
    | cons first _ ih =>
      obtain ⟨n, all⟩ := ih
      obtain ⟨m, like⟩ := first.like
      exact ⟨max m n, .cons (like.mono (Nat.le_max_left m n))
        (all.imp fun _ _ like => like.mono (Nat.le_max_right m n))⟩
  obtain ⟨m, nested⟩ := Nests.all fun z hz => by
    obtain ⟨w, -, copies⟩ := exists_right parts.flip hz
    exact copies.nested
  obtain ⟨n, like⟩ := like
  refine ⟨⟨n + 1, .inr ⟨b, c, left, right, fits, like⟩⟩, m + 1, ?_, fun z hz => ?_⟩
  · rwa [Sound, right]
  · exact nested z (by rwa [parts_of_body right] at hz)

theorem isNull (h : t.Replicates y x) (known : x.isNull = false) : y.isNull = false := by
  obtain ⟨n, like⟩ := h.like
  exact like.isNull known

theorem endures (h : t.Replicates y x) (endures : t.Endures u) : u.Replicates y x where
  like := h.like.imp fun _ like => like.endures endures
  nested := h.nested.imp fun _ nests => nests.endures endures

/-- Walks that start at an object have room for it and for its copy. -/
theorem bounded (h : t.Replicates y x) :
    ∃ n, t.Alike n y x ∧ n ≤ (t.reach + x.depth + 1) * (t.reach + x.depth + 1) := by
  obtain ⟨m, like⟩ := h.like
  obtain ⟨n, nests⟩ := h.nested
  exact ⟨_, like.resize nests.bounded, t.bound_le x.depth⟩

/-- A copy of a reference is equal to what it is a copy of. -/
theorem equal (h : t.Replicates y x) (flat : x.depth = 0) :
    Equality.equal supply y x t = .ok true t := by
  obtain ⟨n, like, room⟩ := h.bounded
  have more : (t.reach + x.depth + 1) * (t.reach + x.depth + 1) ≤
      (t.reach + y.depth + 1) * (t.reach + y.depth + 1) := Nat.mul_self_le_mul_self (by omega)
  exact like.equal (Nat.le_trans room more)

theorem hash (h : t.Replicates y x) (flat : x.depth = 0) :
    Concur t Eq (HashKey.of supply y) (HashKey.of supply x) := by
  obtain ⟨n, like, room⟩ := h.bounded
  have more : (t.reach + x.depth + 1) * (t.reach + x.depth + 1) ≤
      (t.reach + y.depth + 1) * (t.reach + y.depth + 1) := Nat.mul_self_le_mul_self (by omega)
  have keys : Concur t Eq (HashKey.ofWithin supply _ y) (HashKey.ofWithin supply _ x) :=
    HashKey.concur_ofWithin like (Nat.le_trans room more) room
  exact keys

end Replicates

namespace Alike

/-- What is like a wrapper is a wrapper of its kind over a type that is like the one it wraps. -/
theorem wrapper {w : Wrapper} {r : Ref .wrapper} (h : t.Alike n y (.wrapper w r)) :
    ∃ r' z v m, y = .wrapper w r' ∧ (t.wrapper r').resolved = some z ∧
      (t.wrapper r).resolved = some v ∧ t.Alike m z v := by
  cases n with
  | zero => cases h
  | succ n =>
    rcases h with ⟨rfl, atom⟩ | ⟨b, c, left, right, fits, parts⟩
    · cases atom
    obtain ⟨c', -, rfl⟩ := Option.map_eq_some_iff.1 right
    cases b with
    | wrapper =>
      obtain ⟨r', rfl, -, rfl⟩ := makes_of_body left
      obtain ⟨_, ⟨⟩, -, rfl⟩ := makes_of_body right
      obtain ⟨rfl, known, known'⟩ := fits
      obtain ⟨z, resolved⟩ := Option.isSome_iff_exists.1 known
      obtain ⟨v, resolved'⟩ := Option.isSome_iff_exists.1 known'
      simp only [Body.parts, resolved, resolved', Option.toList] at parts
      exact ⟨r', z, v, n, rfl, resolved, resolved', (List.forall₂_cons.1 parts).1⟩
    | _ => exact fits.elim

/-- What is like an argument is an argument with a type that is like its type. -/
theorem argument {q : Ref .argument} (h : t.Alike n y (.argument q)) :
    ∃ q' z v m, y = .argument q' ∧ Arguments.type supply q' t = .ok z t ∧
      Arguments.type supply q t = .ok v t ∧ t.Alike m z v := by
  cases n with
  | zero => cases h
  | succ n =>
    rcases h with ⟨rfl, atom⟩ | ⟨b, c, left, right, fits, parts⟩
    · cases atom
    obtain ⟨c', -, rfl⟩ := Option.map_eq_some_iff.1 right
    cases b with
    | argument =>
      obtain ⟨q', rfl, -, rfl⟩ := makes_of_body left
      obtain ⟨_, ⟨⟩, -, rfl⟩ := makes_of_body right
      obtain ⟨_, z, -, typed, _, _, _, inside⟩ := HashKey.keyFields_of_complete supply fits.1
      obtain ⟨_, v, -, typed', _, _, _, inside'⟩ := HashKey.keyFields_of_complete supply fits.2.1
      rw [inside, inside'] at parts
      obtain ⟨-, parts⟩ := List.forall₂_cons.1 parts
      obtain ⟨-, parts⟩ := List.forall₂_cons.1 parts
      obtain ⟨-, parts⟩ := List.forall₂_cons.1 parts
      exact ⟨q', z, v, n, rfl, typed, typed', (List.forall₂_cons.1 parts).1⟩
    | _ => exact fits.elim

/-- What a type wraps in the end is wrapped in the end by what is like it. -/
theorem unwrapWithin {K : Nat} {q : Ref .scalar} (h : t.Alike n y x)
    (builtIn : BuiltIn.isScalar q = true)
    (run : Types.unwrapWithin supply K x t = .ok (.scalar q) t') :
    Types.unwrapWithin supply K y t = .ok (.scalar q) t := by
  have atom : (Value.scalar q).isAtom = true := builtIn
  have leaf {K : Nat} {x y : Value} {n : Nat} (h : t.Alike n y x) (single : x.isWrapper = false)
      (run : Types.unwrapWithin supply K x t = .ok (.scalar q) t') :
      Types.unwrapWithin supply K y t = .ok (.scalar q) t := by
    obtain ⟨rfl, -⟩ := Snapshot.eq_of_unwrapWithin run single
    rw [h.eq_of_isAtom atom]
    cases K <;> rfl
  induction K generalizing n x y with
  | zero =>
    cases x with
    | wrapper => cases run
    | _ => exact leaf h rfl run
  | succ K ih =>
    cases x with
    | wrapper w r =>
      obtain ⟨r', z, v, m, rfl, known, known', like⟩ := h.wrapper
      have inner : Types.unwrapWithin supply K v t = .ok (.scalar q) t' :=
        (Action.bind_of_ok (Types.wrapped_of_resolved known')).symm.trans run
      exact (Action.bind_of_ok (Types.wrapped_of_resolved known)).trans (ih like inner)
    | _ => exact leaf h rfl run

/-- The type of a wrapper or of an argument is like that of its copy. -/
theorem type (supply : Supplier) (h : t.Alike n y x) (typed : x.isTyped = true) : ∃ z v m,
    Access.get supply y "type" t = .ok z t ∧ Access.get supply x "type" t = .ok v t ∧
      t.Alike m z v := by
  cases x with
  | wrapper w r =>
    obtain ⟨r', z, v, m, rfl, known, known', like⟩ := h.wrapper
    exact ⟨z, v, m, Types.wrapped_of_resolved known, Types.wrapped_of_resolved known', like⟩
  | argument q =>
    obtain ⟨q', z, v, m, rfl, typed, typed', like⟩ := h.argument
    exact ⟨z, v, m, typed, typed', like⟩
  | _ => cases typed

end Alike

end Session

/-! ### Innermost types -/

/-- With more room, the end of a chain of wrappers is found as well. -/
theorem Types.unwrapWithin_mono (h : unwrapWithin supply n v s = .ok y s') (le : n ≤ m) :
    unwrapWithin supply m v s = .ok y s' := by
  have leaf {n m : Nat} {v : Value} {s : Session} (single : v.isWrapper = false)
      (h : unwrapWithin supply n v s = .ok y s') : unwrapWithin supply m v s = .ok y s' := by
    obtain ⟨rfl, rfl⟩ := Snapshot.eq_of_unwrapWithin h single
    cases m <;> cases v <;> first | rfl | cases single
  induction n generalizing m v s with
  | zero =>
    cases v with
    | wrapper => cases h
    | _ => exact leaf rfl h
  | succ n ih =>
    obtain ⟨k, rfl⟩ : ∃ k, m = k + 1 := ⟨m - 1, by omega⟩
    cases v with
    | wrapper w r =>
      obtain ⟨t, s₁, wrapped, rest⟩ := Action.ok_of_bind h
      exact (Action.bind_of_ok wrapped).trans (ih rest (by omega))
    | _ => exact leaf rfl h

/-- What the type of an argument, or the type that a wrapper wraps, wraps in the end. -/
def Access.innermost (supply : Supplier) (x : Value) : Action Value := do
  Types.unwrap supply (← Access.get supply x "type")

namespace Session

/-- Whatever is observed or built, an argument or a wrapper is in the end over a built-in scalar.
There is a bound on the wrappers around the scalar: those that exist, and those that deferred types
still have to create. -/
def Reliable (s : Session) (x : Value) : Prop :=
  ∀ u, s.Grows u → ∃ q u', (Access.get Deferred.supplier x "type" >>=
    Types.unwrapWithin Deferred.supplier (s.reach + 1)) u = .ok (.scalar q) u' ∧
      BuiltIn.isScalar q = true

/-- The bound of a walk leaves room for a chain of wrappers. -/
theorem room_for_chain (some : 1 ≤ s.reach) : s.reach + 2 < (s.reach + 1) * (s.reach + 1) := by
  nlinarith

/-- A wrapper, or an argument in which there is nothing besides its type but plain data. -/
inductive Copyable (s : Session) : Value → Prop where
  | wrapper {w : Wrapper} {r : Ref .wrapper} : r.index < s.wrappers.size →
      s.Copyable (.wrapper w r)
  | argument {q : Ref .argument} : q.index < s.arguments.size →
      Snapshot.PlainArgument s (s.argument q) → s.Copyable (.argument q)

theorem Copyable.isTyped (h : s.Copyable x) : x.isTyped = true := by cases h <;> rfl

theorem Copyable.flat (h : s.Copyable x) : x.depth = 0 := by cases h <;> rfl

/-- Whatever is observed afterwards, two objects are equal, and hash alike if they hash at all. -/
structure Matches (t : Session) (y x : Value) : Prop where
  equal {u : Session} : t.Leads u → (Equality.equal Deferred.supplier y x).result? u = some true
  hash {u : Session} : t.Leads u →
    (HashKey.of Deferred.supplier y).result? u = (HashKey.of Deferred.supplier x).result? u

end Session

end DirectiveSchema

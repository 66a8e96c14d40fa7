import DirectiveSchema.Proofs.Tandem

/-!
Evaluating twice. Two sessions that bind paired data to the same names gain the same by the same
quiet call, whatever else they hold: what the one gains is paired, in its order, with what the other
gains.
-/
namespace DirectiveSchema

open Pairing

variable {α β : Type} {φ ψ : Pairing} {s t s' t' s'' t'' : Session}

/-- A pairing with what two sessions gained, in order. -/
def Pairing.gained (φ : Pairing) (s t s' : Session) : Pairing := fun k i j =>
  φ k i j ∨ ∃ n, s.used k + n < s'.used k ∧ i = s.used k + n ∧ j = t.used k + n

namespace Pairing

theorem le_gained (φ : Pairing) (s t s' : Session) : φ ≤ φ.gained s t s' :=
  fun _ _ _ paired => .inl paired

theorem gained_self (φ : Pairing) (s t : Session) : φ.gained s t s = φ := by
  funext k i j
  refine propext ⟨fun h => ?_, .inl⟩
  rcases h with paired | ⟨n, live, -⟩
  · exact paired
  · omega

end Pairing

/-- Two sessions that gained the same. -/
structure GainAlike (φ : Pairing) (s t s' t' : Session) : Prop where
  used (k : Option CellKind) : ∃ n, s'.used k = s.used k + n ∧ t'.used k = t.used k + n
  left {k : CellKind} {i : Nat} : i < s.count k → s'.cell k i = s.cell k i
  right {k : CellKind} {j : Nat} : j < t.count k → t'.cell k j = t.cell k j
  cells {k : CellKind} {n : Nat} : s.count k + n < s'.count k →
    (φ.gained s t s').RelatesCells (s'.cell k (s.count k + n)) (t'.cell k (t.count k + n))
  unresolved {k : CellKind} {n : Nat} : s.count k + n < s'.count k →
    (t'.cell k (t.count k + n)).resolved? = none
  bindings : s'.bindings = s.bindings
  bindings' : t'.bindings = t.bindings

namespace GainAlike

/-- Sessions that gained nothing, but for calls and notices. -/
theorem of_same (used : ∀ k, s'.used k = s.used k) (used' : ∀ k, t'.used k = t.used k)
    (cell : ∀ k i, s'.cell k i = s.cell k i) (cell' : ∀ k i, t'.cell k i = t.cell k i)
    (bindings : s'.bindings = s.bindings) (bindings' : t'.bindings = t.bindings) :
    GainAlike φ s t s' t' where
  used k := ⟨0, used k, used' k⟩
  left _ := cell _ _
  right _ := cell' _ _
  cells {k n} live := by
    have same : s'.count k = s.count k := used (some k)
    omega
  unresolved {k n} live := by
    have same : s'.count k = s.count k := used (some k)
    omega
  bindings := bindings
  bindings' := bindings'

theorem refl (φ : Pairing) (s t : Session) : GainAlike φ s t s t :=
  of_same (fun _ => rfl) (fun _ => rfl) (fun _ _ => rfl) (fun _ _ => rfl) rfl rfl

variable (h : GainAlike φ s t s' t')

include h

/-- What was gained first and what was gained then was gained in all. -/
theorem gained_gained (h' : GainAlike (φ.gained s t s') s' t' s'' t'') :
    (φ.gained s t s').gained s' t' s'' = φ.gained s t s'' := by
  funext k i j
  obtain ⟨m, used, used'⟩ := h.used k
  obtain ⟨n, more, more'⟩ := h'.used k
  refine propext ⟨fun paired => ?_, fun paired => ?_⟩
  · rcases paired with (old | ⟨l, live, rfl, rfl⟩) | ⟨l, live, rfl, rfl⟩
    · exact .inl old
    · exact .inr ⟨l, by omega, rfl, rfl⟩
    · exact .inr ⟨m + l, by omega, by omega, by omega⟩
  · rcases paired with old | ⟨l, live, rfl, rfl⟩
    · exact .inl (.inl old)
    · by_cases early : l < m
      · exact .inl (.inr ⟨l, by omega, rfl, rfl⟩)
      · exact .inr ⟨l - m, by omega, by omega, by omega⟩

theorem trans (h' : GainAlike (φ.gained s t s') s' t' s'' t'') : GainAlike φ s t s'' t'' := by
  have grown (k : CellKind) : ∃ n, s'.count k = s.count k + n ∧ t'.count k = t.count k + n :=
    h.used (some k)
  exact {
    used := fun k => by
      obtain ⟨m, used, used'⟩ := h.used k
      obtain ⟨n, more, more'⟩ := h'.used k
      exact ⟨m + n, by omega, by omega⟩
    left := fun {k i} live => by
      obtain ⟨n, used, -⟩ := grown k
      exact (h'.left (by omega)).trans (h.left live)
    right := fun {k j} live => by
      obtain ⟨n, -, used'⟩ := grown k
      exact (h'.right (by omega)).trans (h.right live)
    cells := fun {k l} live => by
      obtain ⟨n, used, used'⟩ := grown k
      rw [← h.gained_gained h']
      by_cases early : l < n
      · rw [h'.left (by omega), h'.right (by omega)]
        exact (h.cells (by omega)).mono (le_gained _ _ _ _)
      · obtain ⟨l, rfl⟩ := Nat.exists_eq_add_of_le (Nat.le_of_not_lt early)
        have cells := h'.cells (k := k) (n := l) (by omega)
        rwa [used, used', Nat.add_assoc, Nat.add_assoc] at cells
    unresolved := fun {k l} live => by
      obtain ⟨n, used, used'⟩ := grown k
      by_cases early : l < n
      · rw [h'.right (by omega)]
        exact h.unresolved (by omega)
      · obtain ⟨l, rfl⟩ := Nat.exists_eq_add_of_le (Nat.le_of_not_lt early)
        have unresolved := h'.unresolved (k := k) (n := l) (by omega)
        rwa [used', Nat.add_assoc] at unresolved
    bindings := h'.bindings.trans h.bindings
    bindings' := h'.bindings'.trans h.bindings' }

end GainAlike

/-- How two actions end alike: both sessions gained the same, and results are paired or both end in
the same fault. -/
inductive Repeated (φ : Pairing) (x : Action α) (y : Action β) (post : Pairing → α → β → Prop)
    (s t : Session) : Prop where
  | ok {a : α} {b : β} {s' t' : Session} : x s = .ok a s' → y t = .ok b t' →
      GainAlike φ s t s' t' → post (φ.gained s t s') a b → Repeated φ x y post s t
  | error {e : Fault} {s' t' : Session} : x s = .error e s' → y t = .error e t' →
      GainAlike φ s t s' t' → e.IsPlain → Repeated φ x y post s t

/-- Two actions that end alike wherever the same names are bound to paired data. -/
def Repeats : PairClass := fun φ x y post => ∀ s t, φ none 0 0 →
  φ.RelatesAttributes s.bindings t.bindings → Repeated φ x y post s t

namespace Repeats

variable {post : Pairing → α → β → Prop}

/-- A cell that is added to both sessions. -/
theorem newCell {c c' : Cell} (related : φ.RelatesCells c c') (unresolved : c'.resolved? = none) :
    Repeats φ (Action.newCell c) (Action.newCell c') fun ψ i j => ψ (some c.kind) i j := by
  intro s t _ _
  have kind : c'.kind = c.kind := by cases related <;> rfl
  have paired : (φ.gained s t (s.add c)) (some c.kind) (s.count c.kind) (t.count c'.kind) := by
    refine .inr ⟨0, ?_, rfl, by rw [kind]; rfl⟩
    rw [Session.used_add, if_pos rfl]
    omega
  have only {k : CellKind} {n : Nat} (live : s.count k + n < (s.add c).count k) :
      k = c.kind ∧ n = 0 := by
    have used : (s.add c).count k = s.count k + _ := s.used_add c (some k)
    rw [used] at live
    split at live
    · next same => exact ⟨Option.some.inj same, by omega⟩
    · omega
  refine .ok rfl rfl {
    used := fun k => ⟨_, s.used_add c k, by rw [t.used_add, kind]⟩
    left := fun live => Session.cell_add_of_lt c live
    right := fun live => Session.cell_add_of_lt c' live
    cells := fun live => ?_
    unresolved := fun live => ?_
    bindings := s.bindings_add c
    bindings' := t.bindings_add c' } paired
  · obtain ⟨rfl, rfl⟩ := only live
    have right := t.cell_add_self c'
    rw [kind] at right
    rw [Nat.add_zero, Nat.add_zero, s.cell_add_self, right]
    exact related.mono (le_gained _ _ _ _)
  · obtain ⟨rfl, rfl⟩ := only live
    have right := t.cell_add_self c'
    rw [kind] at right
    rwa [Nat.add_zero, right]

theorem freshTag : Repeats φ Action.freshTag Action.freshTag fun ψ a b => ψ none a b := by
  intro s t _ _
  have used (s : Session) (k : Option CellKind) :
      Session.used { s with nextTag := s.nextTag + 1 } k =
        s.used k + if k = none then 1 else 0 := by
    cases k <;> rfl
  refine .ok rfl rfl {
    used := fun k => ⟨_, used s k, used t k⟩
    left := fun {k i} _ => by cases k <;> rfl
    right := fun {k i} _ => by cases k <;> rfl
    cells := fun {k n} live => by
      have same : Session.count { s with nextTag := s.nextTag + 1 } k = s.count k := by
        cases k <;> rfl
      omega
    unresolved := fun {k n} live => by
      have same : Session.count { s with nextTag := s.nextTag + 1 } k = s.count k := by
        cases k <;> rfl
      omega
    bindings := rfl
    bindings' := rfl } ?_
  exact .inr ⟨0, Nat.lt_succ_self _, rfl, rfl⟩

theorem lookup (name : String) :
    Repeats φ (Expression.lookup name) (Expression.lookup name) Relates := by
  intro s t _ bound
  have found : φ.RelatesParts (s.binding? name) (t.binding? name) :=
    RelatesAttributes.lookup bound name
  have gains := GainAlike.refl φ s t
  have run (s : Session) : Expression.lookup name s =
      (s.binding? name).elim (.error (.unbound name) s) fun v => .ok v s := by
    simp only [Expression.lookup, Action.get_bind]
    cases s.binding? name <;> rfl
  have left := run s
  have right := run t
  generalize s.binding? name = v at found left
  generalize t.binding? name = w at found right
  cases found with
  | none => exact .error left right gains (.inl rfl)
  | some related => exact .ok left right gains (related.mono (le_gained _ _ _ _))

/-- The class of these pairs. -/
theorem tandem : Tandem Repeats where
  pure {_ _ φ _ _ _} related s t _ _ :=
    .ok rfl rfl (.refl φ s t) (by rwa [gained_self])
  throw {_ _ φ _ _} plain s t _ _ := .error rfl rfl (.refl φ s t) plain
  bind {_ _ _ _ φ mid post x y f g} first rest s t empty bound := by
    cases first s t empty bound with
    | error run run' gains plain =>
      exact .error (Action.bind_of_error run) (Action.bind_of_error run') gains plain
    | @ok a b s' t' run run' gains related =>
      have bound' : (φ.gained s t s').RelatesAttributes s'.bindings t'.bindings := by
        rw [gains.bindings, gains.bindings']
        exact RelatesAttributes.mono (le_gained _ _ _ _) bound
      cases rest (le_gained _ _ _ _) related s' t' (.inl empty) bound' with
      | ok next next' gains' related' =>
        rw [gains.gained_gained gains'] at related'
        exact .ok ((Action.bind_of_ok run).trans next) ((Action.bind_of_ok run').trans next')
          (gains.trans gains') related'
      | error next next' gains' plain =>
        exact .error ((Action.bind_of_ok run).trans next) ((Action.bind_of_ok run').trans next')
          (gains.trans gains') plain
  emptyRow {φ} s t empty _ :=
    .ok rfl rfl (.refl φ s t) (Relates.tuple_iff.2 ⟨.inl empty, .nil⟩)
  freshTag := freshTag
  newCell := newCell
  lookup := lookup

/-- The same quiet call builds the same anywhere. -/
theorem evaluate {body : TypeExpression} {c : String} {a b : Nat}
    (quiet : body.isQuiet true = true) (supply supply' : Supplier) (φ : Pairing) :
    Repeats φ (Deferred.evaluate supply ⟨a, c, body⟩)
      (Deferred.evaluate supply' ⟨b, c, body⟩) Relates := by
  have counted : Repeats φ (modify fun s => { s with calls := c :: s.calls } : Action Unit)
      (modify fun s => { s with calls := c :: s.calls } : Action Unit) fun _ _ _ => True := by
    intro s t _ _
    refine .ok rfl rfl (.of_same ?_ ?_ ?_ ?_ rfl rfl) trivial
    · exact fun k => by cases k <;> rfl
    · exact fun k => by cases k <;> rfl
    · exact fun k i => by cases k <;> rfl
    · exact fun k i => by cases k <;> rfl
  exact tandem.bind counted fun {ψ _ _} _ _ =>
    tandem.evalType (fun outside => by cases outside) body quiet ψ

end Repeats

end DirectiveSchema

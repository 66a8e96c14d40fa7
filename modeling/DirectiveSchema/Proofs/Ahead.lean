import DirectiveSchema.Proofs.Repetition

/-!
A session that is ahead of another. All that the first session holds is paired with something that
the second one holds, and the second one may hold more: what was added on the way, and types that
were obtained there and are still to be obtained in the first session. What was built for such a
type is housed with the cell that keeps it, until the first session builds the same.
-/
namespace DirectiveSchema

open Pairing

variable {φ ψ : Pairing} {s t s' t' : Session} {k : CellKind} {i j : Nat} {v w : Value}
  {c c' : Cell}

/-! ### Cells that are resolved -/

/-- A cell that is resolved, if it was not before. -/
def Cell.Settles (c c' : Cell) : Prop := c' = c ∨ c.resolved? = none ∧ ∃ t, c' = c.resolve t

namespace Cell

theorem resolve_resolve (c : Cell) (t u : Value) : (c.resolve t).resolve u = c.resolve u := by
  cases c <;> rfl

theorem Settles.refl (c : Cell) : c.Settles c := .inl rfl

theorem Settles.trans {a b c : Cell} (h : a.Settles b) (h' : b.Settles c) : a.Settles c := by
  rcases h with rfl | ⟨unresolved, t, rfl⟩
  · exact h'
  · rcases h' with rfl | ⟨-, u, rfl⟩
    · exact .inr ⟨unresolved, t, rfl⟩
    · exact .inr ⟨unresolved, u, resolve_resolve a t u⟩

theorem Settles.source?_eq (h : c.Settles c') : c'.source? = c.source? := by
  rcases h with rfl | ⟨-, t, rfl⟩
  · rfl
  · exact source?_resolve c t

end Cell

namespace Pairing.RelatesCells

/-- The first session need not know what the second one comes to know. -/
theorem resolve_right (h : φ.RelatesCells c c') (unresolved : c.resolved? = none) (v : Value) :
    φ.RelatesCells c (c'.resolve v) := by
  have informs (w : Option Value) : φ.Informs c.resolved? w := by
    rw [unresolved]
    exact .none w
  cases h with
  | wrapper h => exact .wrapper { h with resolved := informs _ }
  | argument h => exact .argument { h with resolved := informs _ }
  | list h => exact .list h
  | set h => exact .set h
  | dict h => exact .dict h
  | named h => exact .named h
  | scalar h => exact .scalar h
  | directive h => exact .directive h

theorem settles {d : Cell} (h : φ.RelatesCells d c) (settles : c.Settles c') :
    φ.RelatesCells d c' := by
  rcases settles with rfl | ⟨unresolved, t, rfl⟩
  · exact h
  · refine h.resolve_right ?_ t
    cases resolved : d.resolved? with
    | none => rfl
    | some u =>
      obtain ⟨w, known, -⟩ := h.resolved? u resolved
      rw [unresolved] at known
      cases known

theorem kind_eq (h : φ.RelatesCells c c') : c'.kind = c.kind := by cases h <;> rfl

end Pairing.RelatesCells

/-! ### Types that the first session has still to obtain -/

/-- The cell that keeps the type for which a tag was given or a cell was built. -/
abbrev Homes := Option CellKind → Nat → Option (CellKind × Nat)

/-- A type that the second session obtained, in the cell `o`, and the first one did not: it is known
from the source, or it is the answer of a quiet call, and what that call built is housed with the
cell. -/
inductive Pending (φ : Pairing) (home : Homes) (s t : Session) (o : CellKind × Nat) (v : Value) :
    Prop where
  | known : (t.cell o.1 o.2).source? = some v → v.isKnown = true → Pending φ home s t o v
  | called {supply : Supplier} {d : Deferred} {t₀ t₁ : Session} :
      (t.cell o.1 o.2).source? = some (.deferred d) → d.body.isQuiet true = true →
        v.isNull = false → d.evaluate supply t₀ = .ok v t₁ →
          φ.RelatesAttributes s.bindings t₀.bindings →
            (∀ k n, t₀.used k + n < t₁.used k → home k (t₀.used k + n) = some o) →
              (∀ k n, t₀.count k + n < t₁.count k →
                (t₁.cell k (t₀.count k + n)).Settles (t.cell k (t₀.count k + n))) →
                  Pending φ home s t o v

namespace Pending

variable {home home' : Homes} {o : CellKind × Nat}

theorem notNull (h : Pending φ home s t o v) : v.isNull = false := by
  cases h with
  | known _ known =>
    cases v with
    | null => cases known
    | _ => rfl
  | called _ _ notNull => exact notNull

/-- A type is pending as long as the source and what was built for it are as they were, but for what
is resolved. -/
theorem mono (h : Pending φ home s t o v) (le : φ ≤ ψ) (bindings : s'.bindings = s.bindings)
    (source : (t'.cell o.1 o.2).source? = (t.cell o.1 o.2).source?)
    (housed : ∀ k j, home k j = some o → home' k j = some o)
    (settles : ∀ k j, home (some k) j = some o → (t.cell k j).Settles (t'.cell k j)) :
    Pending ψ home' s' t' o v := by
  cases h with
  | known based known => exact .known (source.trans based) known
  | called based quiet notNull run bound built became =>
    refine .called (source.trans based) quiet notNull run ?_ (fun k n live => ?_) fun k n live => ?_
    · rw [bindings]
      exact RelatesAttributes.mono le bound
    · exact housed _ _ (built k n live)
    · exact (became k n live).trans (settles _ _ (built (some k) n live))

end Pending

/-! ### Sessions ahead of others -/

structure Ahead (φ : Pairing) (home : Homes) (s t : Session) : Prop where
  one : φ.OneToOne
  total {k : Option CellKind} {i : Nat} : i < s.used k → ∃ j, φ k i j
  within {k : Option CellKind} {i j : Nat} : φ k i j → i < s.used k ∧ j < t.used k
  /-- The empty tuple and the built-in scalars are the same in all sessions. -/
  empty : φ none 0 0
  scalars {r : Ref .scalar} : BuiltIn.isScalar r = true → φ (some .scalar) r.index r.index
  bindings : φ.RelatesAttributes s.bindings t.bindings
  cells {k : CellKind} {i j : Nat} : φ (some k) i j → φ.RelatesCells (s.cell k i) (t.cell k j)
  late {k : CellKind} {i j : Nat} {v : Value} : φ (some k) i j → (s.cell k i).resolved? = none →
    (t.cell k j).resolved? = some v → Pending φ home s t (k, j) v
  housed {k : Option CellKind} {j : Nat} {o : CellKind × Nat} : home k j = some o →
    j < t.used k ∧ ∀ i, ¬φ k i j
  quiet {k : CellKind} {j : Nat} {o : CellKind × Nat} {d : Deferred} : home (some k) j = some o →
    (t.cell k j).source? = some (.deferred d) → d.body.isQuiet true = true
  lateHoused {k : CellKind} {j : Nat} {o : CellKind × Nat} {v : Value} :
    home (some k) j = some o → (t.cell k j).resolved? = some v → Pending φ home s t (k, j) v

namespace Ahead

variable {home home' : Homes} {o : CellKind × Nat} (h : Ahead φ home s t)

include h

/-- No two cells of the first session stand for one cell of the second. -/
theorem left_eq {k : Option CellKind} {i' : Nat} (paired : φ k i j) (paired' : φ k i' j) :
    i' = i :=
  (h.one.iff paired' paired).2 rfl

/-- The first session gains cells, and the second one has cells for them that were paired with none:
others that it gains at the same time, or some that it had before. -/
theorem extend {b : Session} (used : ∀ k, s.used k ≤ s'.used k) (used' : ∀ k, t.used k ≤ t'.used k)
    (left : ∀ k i, i < s.count k → s'.cell k i = s.cell k i)
    (right : ∀ k j, (∃ i, φ (some k) i j) ∨ (∃ o, home (some k) j = some o) →
      t'.cell k j = t.cell k j)
    (bindings : s'.bindings = s.bindings) (bindings' : t'.bindings = t.bindings)
    (fresh : ∀ k n, s.used k + n < s'.used k → b.used k + n < t'.used k ∧
      (∀ i, ¬φ k i (b.used k + n)) ∧ home k (b.used k + n) = none)
    (cells : ∀ k n, s.count k + n < s'.count k → (φ.gained s b s').RelatesCells
      (s'.cell k (s.count k + n)) (t'.cell k (b.count k + n)))
    (late : ∀ k n v, s.count k + n < s'.count k →
      (s'.cell k (s.count k + n)).resolved? = none →
        (t'.cell k (b.count k + n)).resolved? = some v →
          Pending (φ.gained s b s') home s' t' (k, b.count k + n) v) :
    Ahead (φ.gained s b s') home s' t' := by
  have le := le_gained φ s b s'
  have pending {k : CellKind} {j : Nat} {v : Value}
      (placed : (∃ i, φ (some k) i j) ∨ ∃ o, home (some k) j = some o)
      (pending : Pending φ home s t (k, j) v) :
      Pending (φ.gained s b s') home s' t' (k, j) v := by
    refine pending.mono le bindings (by rw [right k j placed]) (fun _ _ => id) fun k j at' => ?_
    rw [right k j (.inr ⟨_, at'⟩)]
    exact .refl _
  exact {
    one := ⟨fun {k i i' j j'} paired paired' => by
      rcases paired with paired | ⟨n, live, rfl, rfl⟩ <;>
        rcases paired' with paired' | ⟨n', live', rfl, rfl⟩
      · exact h.one.iff paired paired'
      · refine iff_of_false (fun same => ?_) fun same => ?_
        · have := (h.within paired).1
          omega
        · exact (fresh k n' live').2.1 i (same ▸ paired)
      · refine iff_of_false (fun same => ?_) fun same => ?_
        · have := (h.within paired').1
          omega
        · exact (fresh k n live).2.1 i' (same ▸ paired')
      · omega⟩
    total := fun {k i} live => by
      by_cases old : i < s.used k
      · obtain ⟨j, paired⟩ := h.total old
        exact ⟨j, .inl paired⟩
      · exact ⟨_, .inr ⟨i - s.used k, by omega, by omega, rfl⟩⟩
    within := fun {k i j} paired => by
      rcases paired with paired | ⟨n, live, rfl, rfl⟩
      · have := h.within paired
        have := used k
        have := used' k
        omega
      · exact ⟨live, (fresh k n live).1⟩
    empty := .inl h.empty
    scalars := fun builtIn => .inl (h.scalars builtIn)
    bindings := by
      rw [bindings, bindings']
      exact RelatesAttributes.mono le h.bindings
    cells := fun {k i j} paired => by
      rcases paired with paired | ⟨n, live, rfl, rfl⟩
      · rw [left k i (h.within paired).1, right k j (.inl ⟨i, paired⟩)]
        exact (h.cells paired).mono le
      · exact cells k n live
    late := fun {k i j v} paired unresolved resolved => by
      rcases paired with paired | ⟨n, live, rfl, rfl⟩
      · rw [left k i (h.within paired).1] at unresolved
        rw [right k j (.inl ⟨i, paired⟩)] at resolved
        exact pending (.inl ⟨i, paired⟩) (h.late paired unresolved resolved)
      · exact late k n v live unresolved resolved
    housed := fun {k j o} at' => by
      obtain ⟨inside, unpaired⟩ := h.housed at'
      refine ⟨Nat.lt_of_lt_of_le inside (used' k), fun i paired => ?_⟩
      rcases paired with paired | ⟨n, live, rfl, rfl⟩
      · exact unpaired i paired
      · rw [(fresh k n live).2.2] at at'
        cases at'
    quiet := fun {k j o d} at' based => by
      rw [right k j (.inr ⟨o, at'⟩)] at based
      exact h.quiet at' based
    lateHoused := fun {k j o v} at' resolved => by
      rw [right k j (.inr ⟨o, at'⟩)] at resolved
      exact pending (.inr ⟨o, at'⟩) (h.lateHoused at' resolved) }

/-- The second session may go on alone, as long as it leaves alone what matters to the first. -/
theorem later (used : ∀ k, t.used k ≤ t'.used k)
    (right : ∀ k j, (∃ i, φ (some k) i j) ∨ (∃ o, home (some k) j = some o) →
      t'.cell k j = t.cell k j) (bindings : t'.bindings = t.bindings) : Ahead φ home s t' := by
  have none (k : Option CellKind) (n : Nat) : ¬s.used k + n < s.used k := by omega
  have same := h.extend (b := t) (fun _ => Nat.le_refl _) used (fun _ _ _ => rfl) right rfl bindings
    (fun k n live => absurd live (none k n)) (fun k n live => absurd live (none (some k) n))
    fun k n _ live => absurd live (none (some k) n)
  rwa [gained_self] at same

/-- The calls and the notices of the first session do not matter. -/
theorem of_left (used : ∀ k, s'.used k = s.used k) (cell : ∀ k i, s'.cell k i = s.cell k i)
    (bindings : s'.bindings = s.bindings) : Ahead φ home s' t := by
  have none (k : Option CellKind) (n : Nat) : ¬s.used k + n < s'.used k := by rw [used]; omega
  have same := h.extend (b := t) (fun k => Nat.le_of_eq (used k).symm) (fun _ => Nat.le_refl _)
    (fun k i _ => cell k i) (fun _ _ _ => rfl) bindings rfl
    (fun k n live => absurd live (none k n)) (fun k n live => absurd live (none (some k) n))
    fun k n _ live => absurd live (none (some k) n)
  have nothing : φ.gained s t s' = φ := by
    funext k i j
    refine propext ⟨fun paired => ?_, .inl⟩
    rcases paired with paired | ⟨n, live, -⟩
    · exact paired
    · exact absurd live (none k n)
  rwa [nothing] at same

/-- Both sessions gain the same. -/
theorem gain (gains : GainAlike φ s t s' t') : Ahead (φ.gained s t s') home s' t' := by
  have used (k : Option CellKind) : s.used k ≤ s'.used k ∧ t.used k ≤ t'.used k := by
    obtain ⟨n, used, used'⟩ := gains.used k
    omega
  refine h.extend (fun k => (used k).1) (fun k => (used k).2) (fun _ _ => gains.left)
    (fun k j placed => gains.right ?_) gains.bindings gains.bindings' (fun k n live => ?_)
    (fun k n => gains.cells) fun k n v live _ resolved => ?_
  · rcases placed with ⟨i, paired⟩ | ⟨o, at'⟩
    · exact (h.within paired).2
    · exact (h.housed at').1
  · obtain ⟨m, used, used'⟩ := gains.used k
    refine ⟨by omega, fun i paired => ?_, ?_⟩
    · have := (h.within paired).2
      omega
    · cases at' : home k (t.used k + n) with
      | none => rfl
      | some o =>
        have := (h.housed at').1
        omega
  · rw [gains.unresolved live] at resolved
    cases resolved

/-- Paired cells are changed alike. -/
theorem put (paired : φ (some k) i j) (kind : c.kind = k) (cells : φ.RelatesCells c c')
    (resolved : c.resolved? = none → c'.resolved? = none) :
    Ahead φ home (s.put i c) (t.put j c') := by
  subst kind
  have kind := cells.kind_eq
  obtain ⟨live, live'⟩ := h.within paired
  have self : (s.put i c).cell c.kind i = c := Session.cell_put_self live
  have self' : (t.put j c').cell c.kind j = c' := by
    rw [← kind] at live' ⊢
    exact Session.cell_put_self live'
  have left {k' : CellKind} {i' : Nat} (other : k' = c.kind → i ≠ i') :
      (s.put i c).cell k' i' = s.cell k' i' := Session.cell_put_of_ne other
  have right {k' : CellKind} {j' : Nat} (other : k' = c.kind → j ≠ j') :
      (t.put j c').cell k' j' = t.cell k' j' := Session.cell_put_of_ne (kind ▸ other)
  have away {k' : CellKind} {j' : Nat} {o : CellKind × Nat} (at' : home (some k') j' = some o) :
      (t.put j c').cell k' j' = t.cell k' j' := by
    refine right fun same same' => ?_
    subst same same'
    exact (h.housed at').2 i paired
  have pending {k' : CellKind} {j' : Nat} {v : Value} (other : k' = c.kind → j ≠ j')
      (pending : Pending φ home s t (k', j') v) :
      Pending φ home (s.put i c) (t.put j c') (k', j') v :=
    pending.mono (le_refl φ) (s.bindings_put i c) (by rw [right other]) (fun _ _ => id)
      fun k j at' => by rw [away at']; exact .refl _
  have others {k' : CellKind} {i' j' : Nat} (paired' : φ (some k') i' j') :
      k' = c.kind ∧ i' = i ∧ j' = j ∨ (k' = c.kind → i ≠ i') ∧ (k' = c.kind → j ≠ j') := by
    by_cases same : k' = c.kind
    · subst same
      by_cases same' : i = i'
      · exact .inl ⟨rfl, same'.symm, ((h.one.iff paired paired').1 same').symm⟩
      · exact .inr ⟨fun _ => same', fun _ same => same' ((h.one.iff paired paired').2 same)⟩
    · exact .inr ⟨fun same' => absurd same' same, fun same' => absurd same' same⟩
  exact {
    one := h.one
    total := fun live => h.total (by rwa [Session.used_put] at live)
    within := fun paired => by
      rw [Session.used_put, Session.used_put]
      exact h.within paired
    empty := h.empty
    scalars := h.scalars
    bindings := by
      rw [Session.bindings_put, Session.bindings_put]
      exact h.bindings
    cells := fun {k' i' j'} paired' => by
      rcases others paired' with ⟨rfl, rfl, rfl⟩ | ⟨other, other'⟩
      · rwa [self, self']
      · rw [left other, right other']
        exact h.cells paired'
    late := fun {k' i' j' v} paired' unresolved known => by
      rcases others paired' with ⟨rfl, rfl, rfl⟩ | ⟨other, other'⟩
      · rw [self] at unresolved
        rw [self', resolved unresolved] at known
        cases known
      · rw [left other] at unresolved
        rw [right other'] at known
        exact pending other' (h.late paired' unresolved known)
    housed := fun at' => by
      rw [Session.used_put]
      exact h.housed at'
    quiet := fun at' based => h.quiet at' (away at' ▸ based)
    lateHoused := fun {k' j' o v} at' known => by
      rw [away at'] at known
      refine pending (fun same same' => ?_) (h.lateHoused at' known)
      subst same same'
      exact (h.housed at').2 i paired }

/-- Both sessions keep paired answers. -/
theorem resolve (paired : φ (some k) i j) (related : φ.Relates v w) :
    Ahead φ home (s.put i ((s.cell k i).resolve v)) (t.put j ((t.cell k j).resolve w)) := by
  have cells := h.cells paired
  refine h.put paired (by simp) (cells.resolve related) fun unresolved => ?_
  generalize s.cell k i = c at cells unresolved
  generalize t.cell k j = c' at cells
  cases cells with
  | wrapper | argument => exact related.kept.eq_none unresolved
  | _ => rfl

omit h in
/-- A cell that is not resolved may be. -/
theorem settles_put (unresolved : (t.cell k j).resolved? = none) (v : Value) (k' : CellKind)
    (j' : Nat) : (t.cell k' j').Settles ((t.put j ((t.cell k j).resolve v)).cell k' j') := by
  rcases t.cell_put_cases ((t.cell k j).resolve v) j k' j' with same | ⟨kind, rfl, cell⟩
  · exact .inl same
  · rw [Cell.kind_resolve, Session.kind_cell] at kind
    subst kind
    exact .inr ⟨unresolved, v, cell⟩

/-- The second session keeps a type that is pending from then on. -/
theorem resolveRight (unresolved : (t.cell k j).resolved? = none)
    (pending : Pending φ home s t (k, j) v) :
    Ahead φ home s (t.put j ((t.cell k j).resolve v)) := by
  have settles := settles_put unresolved v
  have later {o : CellKind × Nat} {u : Value} (pending : Pending φ home s t o u) :
      Pending φ home s (t.put j ((t.cell k j).resolve v)) o u :=
    pending.mono (le_refl φ) rfl (settles o.1 o.2).source?_eq (fun _ _ => id)
      fun k' j' _ => settles k' j'
  have known {k' : CellKind} {j' : Nat} {u : Value}
      (resolved : ((t.put j ((t.cell k j).resolve v)).cell k' j').resolved? = some u) :
      (t.cell k' j').resolved? = some u ∨ k' = k ∧ j' = j ∧ u = v := by
    rcases t.cell_put_cases ((t.cell k j).resolve v) j k' j' with same | ⟨kind, rfl, cell⟩
    · exact .inl (same ▸ resolved)
    · rw [Cell.kind_resolve, Session.kind_cell] at kind
      rw [cell] at resolved
      refine .inr ⟨kind, rfl, ?_⟩
      generalize t.cell k j' = c at resolved
      cases c with
      | wrapper | argument => exact (Types.eq_of_kept resolved).symm
      | _ => cases resolved
  exact {
    h with
    within := fun paired => by
      rw [Session.used_put]
      exact h.within paired
    bindings := by
      rw [Session.bindings_put]
      exact h.bindings
    cells := fun paired => (h.cells paired).settles (settles _ _)
    late := fun {k' i' j' u} paired unresolved' resolved => by
      rcases known resolved with old | ⟨rfl, rfl, rfl⟩
      · exact later (h.late paired unresolved' old)
      · exact later pending
    housed := fun at' => by
      rw [Session.used_put]
      exact h.housed at'
    quiet := fun at' based => h.quiet at' ((settles _ _).source?_eq ▸ based)
    lateHoused := fun {k' j' o u} at' resolved => by
      rcases known resolved with old | ⟨rfl, rfl, rfl⟩
      · exact later (h.lateHoused at' old)
      · exact later pending }

/-- What the second session has built for a type is housed with it. -/
theorem house {u : Session} (o : CellKind × Nat)
    (fresh : ∀ k n, u.used k + n < t.used k → (∀ i, ¬φ k i (u.used k + n)) ∧
      home k (u.used k + n) = none)
    (quiet : ∀ k n d, u.count k + n < t.count k →
      (t.cell k (u.count k + n)).source? = some (.deferred d) → d.body.isQuiet true = true)
    (unresolved : ∀ k n, u.count k + n < t.count k →
      (t.cell k (u.count k + n)).resolved? = none) :
    Ahead φ (fun k j => if u.used k ≤ j ∧ j < t.used k then some o else home k j) s t := by
  have split {k : Option CellKind} {j : Nat} {o' : CellKind × Nat}
      (at' : (if u.used k ≤ j ∧ j < t.used k then some o else home k j) = some o') :
      (∃ n, j = u.used k + n ∧ u.used k + n < t.used k) ∨ home k j = some o' := by
    split at at'
    · next new => exact .inl ⟨j - u.used k, by omega, by omega⟩
    · exact .inr at'
  have later {o' : CellKind × Nat} {v : Value} (pending : Pending φ home s t o' v) :
      Pending φ (fun k j => if u.used k ≤ j ∧ j < t.used k then some o else home k j) s t o' v := by
    refine pending.mono (le_refl φ) rfl rfl (fun k j at' => ?_) fun _ _ _ => .refl _
    rw [if_neg]
    · exact at'
    · rintro ⟨le, lt⟩
      obtain ⟨n, rfl⟩ := Nat.exists_eq_add_of_le le
      rw [(fresh k n lt).2] at at'
      cases at'
  exact {
    h with
    late := fun paired unresolved known => later (h.late paired unresolved known)
    housed := fun {k j o'} at' => by
      rcases split at' with ⟨n, rfl, live⟩ | at'
      · exact ⟨live, (fresh k n live).1⟩
      · exact h.housed at'
    quiet := fun {k j o' d} at' based => by
      rcases split at' with ⟨n, rfl, live⟩ | at'
      · exact quiet k n d live based
      · exact h.quiet at' based
    lateHoused := fun {k j o' v} at' known => by
      rcases split at' with ⟨n, rfl, live⟩ | at'
      · have none := unresolved k n live
        rw [show u.used (some k) = u.count k from rfl, none] at known
        cases known
      · exact later (h.lateHoused at' known) }

end Ahead

end DirectiveSchema

import DirectiveSchema.Proofs.Ahead

/-!
Catching up. The first session obtains a type that the second one has obtained before. It calls the
same quiet body, and builds what is housed with the cell that keeps the type; then the cell and what
was built are paired as if both sessions had called at the same time.
-/
namespace DirectiveSchema

open Pairing

variable {φ ψ : Pairing} {s t s' t' : Session} {k : CellKind} {i j : Nat} {v w : Value} {c : Cell}

namespace Cell

theorem resolved?_resolve_null (c : Cell) : (c.resolve .null).resolved? = none := by
  cases c <;> rfl

/-- To keep what is kept already changes nothing. -/
theorem resolve_of_resolved (resolved : c.resolved? = some v) (notNull : v.isNull = false) :
    c.resolve v = c := by
  have kept := Types.kept_of_not_isNull notNull
  cases c with
  | wrapper c =>
    have resolved : c.resolved = some v := resolved
    rw [resolve, kept, ← resolved]
  | argument c =>
    have resolved : c.resolved = some v := resolved
    rw [resolve, kept, ← resolved]
  | _ => cases resolved

/-- An answer of null is not kept. -/
theorem resolve_of_isNull (unresolved : c.resolved? = none) (null : v.isNull = true) :
    c.resolve v = c := by
  have kept := Types.kept_of_isNull null
  cases c with
  | wrapper c =>
    have unresolved : c.resolved = none := unresolved
    rw [resolve, kept, ← unresolved]
  | argument c =>
    have unresolved : c.resolved = none := unresolved
    rw [resolve, kept, ← unresolved]
  | _ => rfl

end Cell

theorem Arena.put_put {α : Type} (a : Arena α) (i : Nat) (x y : α) :
    (a.put i x).put i y = a.put i y := by
  simp only [put, Array.setIfInBounds_setIfInBounds]

/-- The latest content of a cell counts. -/
theorem Session.put_put {c c' : Cell} (s : Session) (i : Nat) (kind : c.kind = c'.kind) :
    (s.put i c).put i c' = s.put i c' := by
  cases c <;> cases c' <;> cases kind <;>
    simp only [put, putList, putSet, putDict, putNamedType, putScalar, putWrapper, putArgument,
      Arena.put_put]

namespace Ahead

variable {home : Homes} (h : Ahead φ home s t)

include h

/-- The second session may forget a type that the first one has still to obtain, and with it the
house of the cell. -/
theorem forget (paired : φ (some k) i j) (unresolved : (s.cell k i).resolved? = none) :
    Ahead φ (fun k' j' => if home k' j' = some (k, j) then none else home k' j') s
      (t.put j ((t.cell k j).resolve .null)) := by
  have split {k' : Option CellKind} {j' : Nat} {o : CellKind × Nat}
      (at' : (if home k' j' = some (k, j) then none else home k' j') = some o) :
      home k' j' = some o := by
    split at at'
    · cases at'
    · exact at'
  have cases' (k' : CellKind) (j' : Nat) := t.cell_put_cases ((t.cell k j).resolve .null) j k' j'
  simp only [Cell.kind_resolve, Session.kind_cell] at cases'
  have away {k' : CellKind} {j' : Nat} {o : CellKind × Nat} (at' : home (some k') j' = some o) :
      (t.put j ((t.cell k j).resolve .null)).cell k' j' = t.cell k' j' := by
    rcases cases' k' j' with same | ⟨rfl, rfl, -⟩
    · exact same
    · exact absurd paired ((h.housed at').2 i)
  have resolved {k' : CellKind} {j' : Nat} {v : Value}
      (known : ((t.put j ((t.cell k j).resolve .null)).cell k' j').resolved? = some v) :
      (t.put j ((t.cell k j).resolve .null)).cell k' j' = t.cell k' j' ∧ (k, j) ≠ (k', j') := by
    by_cases here : (k, j) = (k', j')
    · cases here
      have cell := Session.cell_put_self (s := t) (i := j) (c := (t.cell k j).resolve .null)
        (by rw [Cell.kind_resolve, Session.kind_cell]; exact (h.within paired).2)
      rw [Cell.kind_resolve, Session.kind_cell] at cell
      rw [cell, Cell.resolved?_resolve_null] at known
      cases known
    · refine ⟨?_, here⟩
      rcases cases' k' j' with same | ⟨rfl, rfl, -⟩
      · exact same
      · exact absurd rfl here
  have pending {k' : CellKind} {j' : Nat} {v : Value} (other : (k, j) ≠ (k', j'))
      (cell : (t.put j ((t.cell k j).resolve .null)).cell k' j' = t.cell k' j')
      (pending : Pending φ home s t (k', j') v) :
      Pending φ (fun k' j' => if home k' j' = some (k, j) then none else home k' j') s
        (t.put j ((t.cell k j).resolve .null)) (k', j') v := by
    refine pending.mono (le_refl φ) rfl (by rw [cell]) (fun k'' j'' at' => ?_) fun k'' j'' at' => ?_
    · rw [if_neg]
      · exact at'
      · rw [at']
        exact fun same => other (Option.some.inj same).symm
    · rw [away at']
      exact .refl _
  exact {
    h with
    within := fun paired => by
      rw [Session.used_put]
      exact h.within paired
    bindings := by
      rw [Session.bindings_put]
      exact h.bindings
    cells := fun {k' i' j'} paired' => by
      rcases cases' k' j' with same | ⟨rfl, rfl, cell⟩
      · rw [same]
        exact h.cells paired'
      · obtain rfl := h.left_eq paired paired'
        rw [cell]
        exact (h.cells paired').resolve_right unresolved .null
    late := fun paired' unresolved' known => by
      obtain ⟨cell, other⟩ := resolved known
      rw [cell] at known
      exact pending other cell (h.late paired' unresolved' known)
    housed := fun at' => by
      rw [Session.used_put]
      exact h.housed (split at')
    quiet := fun at' based => h.quiet (split at') (away (split at') ▸ based)
    lateHoused := fun at' known => by
      obtain ⟨cell, other⟩ := resolved known
      rw [cell] at known
      exact pending other cell (h.lateHoused (split at') known) }

/-- To remember a type that was forgotten. -/
theorem put_resolve_forgotten (notNull : w.isNull = false) (paired : φ (some k) i j)
    (resolved : (t.cell k j).resolved? = some w) :
    (t.put j ((t.cell k j).resolve .null)).put j
      (((t.put j ((t.cell k j).resolve .null)).cell k j).resolve w) = t := by
  have cell := Session.cell_put_self (s := t) (i := j) (c := (t.cell k j).resolve .null)
    (by rw [Cell.kind_resolve, Session.kind_cell]; exact (h.within paired).2)
  rw [Cell.kind_resolve, Session.kind_cell] at cell
  rw [cell, Session.put_put _ _ (by simp), Cell.resolve_resolve,
    Cell.resolve_of_resolved resolved notNull, Session.put_cell]

/-- What the second session has built for a type is paired with what the first one builds for it. -/
theorem replay {b : Nat} {counter : String} {body : TypeExpression} {supply' : Supplier}
    {t₀ t₁ : Session} (a : Nat) (supply : Supplier)
    (paired : φ (some k) i j) (unresolved : (s.cell k i).resolved? = none)
    (resolved : (t.cell k j).resolved? = some w) (notNull : w.isNull = false)
    (quiet : body.isQuiet true = true)
    (run : Deferred.evaluate supply' ⟨b, counter, body⟩ t₀ = .ok w t₁)
    (bound : φ.RelatesAttributes s.bindings t₀.bindings)
    (built : ∀ k' n, t₀.used k' + n < t₁.used k' → home k' (t₀.used k' + n) = some (k, j))
    (became : ∀ k' n, t₀.count k' + n < t₁.count k' →
      (t₁.cell k' (t₀.count k' + n)).Settles (t.cell k' (t₀.count k' + n))) :
    ∃ ψ home' v s', φ ≤ ψ ∧ Deferred.evaluate supply ⟨a, counter, body⟩ s = .ok v s' ∧
      ψ.Relates v w ∧
      Ahead ψ home' (s'.put i ((s'.cell k i).resolve v)) t := by
  cases Repeats.evaluate (a := a) (b := b) (c := counter) quiet supply supply' φ s t₀ h.empty
    bound with
  | error _ failed =>
    rw [run] at failed
    cases failed
  | @ok v w' s₁ t₁' run' run₀ gains related =>
    rw [run] at run₀
    cases run₀
    have live {q : Option CellKind} {n : Nat} (new : s.used q + n < s₁.used q) :
        t₀.used q + n < t₁.used q := by
      obtain ⟨m, used, used'⟩ := gains.used q
      omega
    have housed {k' : CellKind} {n : Nat} (new : s.count k' + n < s₁.count k') :
        home (some k') (t₀.count k' + n) = some (k, j) := built (some k') n (live new)
    have away {k' : CellKind} {n : Nat} (new : s.count k' + n < s₁.count k') :
        (t.put j ((t.cell k j).resolve .null)).cell k' (t₀.count k' + n) =
          t.cell k' (t₀.count k' + n) := by
      rcases t.cell_put_cases ((t.cell k j).resolve .null) j k' (t₀.count k' + n) with
        same | ⟨kind, at', -⟩
      · exact same
      · rw [Cell.kind_resolve, Session.kind_cell] at kind
        subst kind
        exact absurd paired (at' ▸ (h.housed (housed new)).2 i)
    have forgotten := h.forget paired unresolved
    have caught : Ahead (φ.gained s t₀ s₁) _ s₁ (t.put j ((t.cell k j).resolve .null)) :=
      forgotten.extend (fun k' => by
        obtain ⟨m, used, -⟩ := gains.used k'
        omega)
      (fun _ => Nat.le_refl _) (fun _ _ => gains.left) (fun _ _ _ => rfl) gains.bindings rfl
      (fun k' n new => by
        have at' := built k' n (live new)
        refine ⟨?_, (h.housed at').2, if_pos at'⟩
        rw [Session.used_put]
        exact (h.housed at').1)
      (fun k' n new => by
        rw [away new]
        exact (gains.cells new).settles (became k' n (live (q := some k') new)))
      (fun k' n u new _ known => by
        rw [away new] at known
        have at' := housed new
        refine (h.lateHoused at' known).mono (le_gained _ _ _ _) gains.bindings (by rw [away new])
          (fun k'' j'' home' => ?_) fun k'' j'' home' => ?_
        · rw [if_neg]
          · exact home'
          · rw [home']
            intro same
            cases same
            exact (h.housed at').2 i paired
        · rcases t.cell_put_cases ((t.cell k j).resolve .null) j k'' j'' with same | ⟨kind, rfl, -⟩
          · exact .inl same
          · rw [Cell.kind_resolve, Session.kind_cell] at kind
            subst kind
            exact absurd paired ((h.housed home').2 i))
    have kept := caught.resolve (.inl paired) related
    rw [h.put_resolve_forgotten notNull paired resolved] at kept
    exact ⟨_, _, v, s₁, le_gained _ _ _ _, run', related, kept⟩

end Ahead

end DirectiveSchema

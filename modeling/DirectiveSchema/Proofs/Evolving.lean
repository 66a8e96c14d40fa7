import DirectiveSchema.Proofs.Abreast
import DirectiveSchema.Proofs.Copying

/-!
A session that goes on alone. Whatever is observed, evaluated or copied in the session ahead, it
remains ahead: what is added there is paired with nothing, and a type that is obtained is one that
the session behind can still obtain, since the call is quiet if the cell is of any concern to it.
-/
namespace DirectiveSchema

open Pairing

variable {φ : Pairing} {s t t' t'' : Session} {k : CellKind} {i j : Nat} {v w : Value} {c : Cell}

/-- Whether a cell matters to the session behind. -/
def Placed (φ : Pairing) (home : Homes) (k : CellKind) (j : Nat) : Prop :=
  (∃ i, φ (some k) i j) ∨ ∃ o, home (some k) j = some o

/-- A session that is ahead of whatever another one was ahead of, at its time. What was housed
remains so, and only what is new may be housed. -/
structure Evolves (t t' : Session) : Prop where
  bindings : t'.bindings = t.bindings
  used (k : Option CellKind) : t.used k ≤ t'.used k
  ahead {φ : Pairing} {home : Homes} {s : Session} : Ahead φ home s t →
    ∃ home', (∀ k j, j < t.used k → home' k j = home k j) ∧ Ahead φ home' s t'

namespace Evolves

theorem refl (t : Session) : Evolves t t :=
  ⟨rfl, fun _ => Nat.le_refl _, fun h => ⟨_, fun _ _ _ => rfl, h⟩⟩

theorem trans (h : Evolves t t') (h' : Evolves t' t'') : Evolves t t'' where
  bindings := h'.bindings.trans h.bindings
  used k := Nat.le_trans (h.used k) (h'.used k)
  ahead ahead := by
    obtain ⟨home', same, ahead'⟩ := h.ahead ahead
    obtain ⟨home'', same', ahead''⟩ := h'.ahead ahead'
    refine ⟨home'', fun k j live => ?_, ahead''⟩
    rw [same' k j (Nat.lt_of_lt_of_le live (h.used k)), same k j live]

theorem lasting : Lasting Evolves := ⟨refl, trans⟩

/-- What is used by cells that exist is left alone. -/
theorem of_grown (used : ∀ k, t.used k ≤ t'.used k)
    (cell : ∀ k j, j < t.count k → t'.cell k j = t.cell k j) (bindings : t'.bindings = t.bindings) :
    Evolves t t' where
  bindings := bindings
  used := used
  ahead {_ home _} ahead := by
    refine ⟨home, fun _ _ _ => rfl, ahead.later used (fun k j placed => cell k j ?_) bindings⟩
    rcases placed with ⟨i, paired⟩ | ⟨o, at'⟩
    · exact (ahead.within paired).2
    · exact (ahead.housed at').1

/-- Calls and notices matter to no other session. -/
theorem of_same (used : ∀ k, t'.used k = t.used k) (cell : ∀ k j, t'.cell k j = t.cell k j)
    (bindings : t'.bindings = t.bindings) : Evolves t t' :=
  of_grown (fun k => Nat.le_of_eq (used k).symm) (fun k j _ => cell k j) bindings

theorem add (t : Session) (c : Cell) : Evolves t (t.add c) :=
  of_grown (fun k => by rw [Session.used_add]; exact Nat.le_add_right _ _)
    (fun _ _ live => Session.cell_add_of_lt c live) (t.bindings_add c)

/-- Whatever is added. -/
theorem addition : Addition Evolves where
  toLasting := lasting
  freshTag t := of_grown (fun k => by
      cases k with
      | none => exact Nat.le_succ _
      | some k => cases k <;> exact Nat.le_refl _)
    (fun k _ _ => by cases k <;> rfl) rfl
  newList items t := add t (.list items)
  newSet members t := add t (.set members)
  newDict entries t := add t (.dict entries)
  newNamedType c t := add t (.named c)
  newScalar c t := add t (.scalar c)
  newWrapper c t := add t (.wrapper c)
  newArgument c t := add t (.argument c)
  newDirective c t := add t (.directive c)
  created _ _ t :=
    of_same (fun k => by rcases k with _ | ⟨⟩ <;> rfl) (fun k _ => by cases k <;> rfl) rfl
  count _ t :=
    of_same (fun k => by rcases k with _ | ⟨⟩ <;> rfl) (fun k _ => by cases k <;> rfl) rfl

/-- Notices matter to no other session. -/
theorem noted (t : Session) (journal : List Notice) : Evolves t { t with journal } :=
  of_same (fun k => by rcases k with _ | ⟨⟩ <;> rfl) (fun k _ => by cases k <;> rfl) rfl

theorem note (n : Notice) : Keeps Evolves (Action.note n) := fun t => noted t _

end Evolves

/-! ### Types that are obtained -/

/-- Calls are answered by the evaluation of their bodies, or not at all. -/
def Evaluating (answer : List Value → Deferred → Action Value) : Prop :=
  ∀ ws d s, (∃ supply, answer ws d s = d.evaluate supply s) ∨ answer ws d s = .error .endless s

theorem Session.live_of_deferred {d : Deferred}
    (based : (s.cell k i).source? = some (.deferred d)) :
    i < s.count k := by
  refine Nat.lt_of_not_le fun dead => ?_
  cases k with
  | wrapper =>
    have cell : s.wrapper ⟨i⟩ = default := Arena.get_of_le dead
    have based : (s.wrapper ⟨i⟩).source = some (.deferred d) := based
    rw [cell] at based
    cases based
  | argument =>
    have cell : s.argument ⟨i⟩ = default := Arena.get_of_le dead
    have based : some (s.argument ⟨i⟩).source = some (.deferred d) := based
    rw [cell] at based
    cases based
  | _ => cases based

theorem Pairing.RelatesCells.quiet {c c' : Cell} {d : Deferred} (h : φ.RelatesCells c c')
    (based : c'.source? = some (.deferred d)) : d.body.isQuiet true = true := by
  have sources := h.source?
  rw [based] at sources
  generalize c.source? = source at sources
  cases sources with
  | some related =>
    cases related with
    | deferred _ _ quiet => exact quiet

namespace Ahead

variable {home : Homes} (h : Ahead φ home s t)

include h

/-- A cell that matters to no other session may be resolved. -/
theorem put_of_not_placed (away : ¬Placed φ home k j) (kind : c.kind = k) :
    Ahead φ home s (t.put j c) := by
  refine h.later (fun _ => Nat.le_of_eq (Session.used_put _ _ _ _).symm) (fun k' j' placed => ?_)
    (Session.bindings_put _ _ _)
  refine Session.cell_put_of_ne fun same at' => ?_
  subst kind same at'
  exact away placed

/-- The calls that a cell makes that matters are quiet. -/
theorem quiet_of_placed {d : Deferred} (placed : Placed φ home k j)
    (based : (t.cell k j).source? = some (.deferred d)) : d.body.isQuiet true = true := by
  rcases placed with ⟨i, paired⟩ | ⟨o, at'⟩
  · exact (h.cells paired).quiet based
  · exact h.quiet at' based

/-- A type that no call decides is kept. -/
theorem keep (unresolved : (t.cell k j).resolved? = none)
    (based : (t.cell k j).source? = some v) (known : v.isKnown = true) :
    Ahead φ home s (t.put j ((t.cell k j).resolve v)) := by
  by_cases placed : Placed φ home k j
  · exact h.resolveRight unresolved (.known based known)
  · exact h.put_of_not_placed placed (by simp)

/-- A type that a quiet call answers is kept, and what the call built is housed with it. -/
theorem keep_answer {supply : Supplier} {d : Deferred} (placed : Placed φ home k j)
    (unresolved : (t.cell k j).resolved? = none)
    (based : (t.cell k j).source? = some (.deferred d)) (run : d.evaluate supply t = .ok v t') :
    ∃ home', (∀ k j, j < t.used k → home' k j = home k j) ∧
      Ahead φ home' s (t'.put j ((t'.cell k j).resolve v)) := by
  have quiet := h.quiet_of_placed placed based
  have live : j < t.count k := Session.live_of_deferred based
  -- The session behind is made to call the same, so that it is seen what the call builds.
  cases Repeats.evaluate (a := d.tag) (b := d.tag) (c := d.counter) quiet supply supply φ s t
    h.empty h.bindings with
  | error _ failed =>
    rw [run] at failed
    cases failed
  | ok _ run' gains =>
    cases run.symm.trans run'
    have cell : t'.cell k j = t.cell k j := gains.right live
    have later : Ahead φ home s t' := h.later
      (fun k => by
        obtain ⟨n, -, used⟩ := gains.used k
        omega)
      (fun k j placed => gains.right (by
        rcases placed with ⟨i, paired⟩ | ⟨o, at'⟩
        · exact (h.within paired).2
        · exact (h.housed at').1))
      gains.bindings'
    cases null : v.isNull with
    | true =>
      refine ⟨home, fun _ _ _ => rfl, ?_⟩
      rw [cell, Cell.resolve_of_isNull unresolved null, ← cell, Session.put_cell]
      exact later
    | false =>
      have gained {k : CellKind} {n : Nat} {s₁ : Session} (gains : GainAlike φ s t s₁ t')
          (new : t.count k + n < t'.count k) : s.count k + n < s₁.count k := by
        have used : ∃ n, s₁.count k = s.count k + n ∧ t'.count k = t.count k + n :=
          gains.used (some k)
        omega
      have housed := later.house (u := t) (k, j) (fun k n new => ?_)
        (fun k n d new based => (gains.cells (gained gains new)).quiet based)
        fun k n new => gains.unresolved (gained gains new)
      · refine ⟨_, fun k' j' old => if_neg (by omega), housed.resolveRight (cell ▸ unresolved) ?_⟩
        refine .called (d := d) (by rw [cell]; exact based) quiet null run
          h.bindings (fun k' n new => ?_) fun k' n new => .refl _
        exact if_pos ⟨Nat.le_add_right _ _, new⟩
      · refine ⟨fun i paired => ?_, ?_⟩
        · have := (h.within paired).2
          omega
        · cases at' : home k (t.used k + n) with
          | none => rfl
          | some o =>
            have := (h.housed at').1
            omega

end Ahead

namespace Evolves

variable {answer : List Value → Deferred → Action Value}

/-- A type is obtained, whatever it is obtained from. -/
theorem obtained (evaluating : Evaluating answer) (answers : ∀ ws d, Keeps Evolves (answer ws d))
    (ws : List Value) (k : CellKind) (j : Nat) (missing : Fault) :
    Keeps Evolves (Types.obtained ⟨ws, answer⟩ k j missing) := by
  intro t
  cases unresolved : (t.cell k j).resolved? with
  | some v =>
    rw [Action.after_of_ok (Types.obtained_of_resolved unresolved)]
    exact refl t
  | none =>
    cases based : (t.cell k j).source? with
    | none =>
      rw [Action.after_of_error (Types.obtained_of_blank unresolved based)]
      exact refl t
    | some source =>
      have demanded := lasting.demand answers ws source
      cases answered : Types.demand ⟨ws, answer⟩ source t with
      | error f t' =>
        rw [Action.after_of_error (Types.obtained_of_fault unresolved based answered)]
        exact demanded.of_error answered
      | ok v t' =>
        rw [Action.after_of_ok (Types.obtained_of_demand unresolved based answered)]
        have kept := demanded.of_ok answered
        refine ⟨?_, fun k' => ?_, fun {φ home s} ahead => ?_⟩
        · rw [Session.bindings_put]
          exact kept.bindings
        · rw [Session.used_put]
          exact kept.used k'
        · cases source with
          | deferred d =>
            by_cases placed : Placed φ home k j
            · rcases evaluating ws d t with ⟨supply, evaluates⟩ | endless
              · exact ahead.keep_answer placed unresolved based (evaluates.symm.trans answered)
              · cases endless.symm.trans answered
            · obtain ⟨home', same, ahead'⟩ := kept.ahead ahead
              have away : ¬Placed φ home' k j := by
                rintro (paired | ⟨o, at'⟩)
                · exact placed (.inl paired)
                · exact placed (.inr ⟨o, same (some k) j (Session.live_of_deferred based) ▸ at'⟩)
              exact ⟨home', same, ahead'.put_of_not_placed away (by simp)⟩
          | null =>
            cases answered
            refine ⟨home, fun _ _ _ => rfl, ?_⟩
            rw [Cell.resolve_of_isNull unresolved rfl, Session.put_cell]
            exact ahead
          | _ =>
            cases answered
            exact ⟨home, fun _ _ _ => rfl, ahead.keep unresolved based rfl⟩

theorem resolving (evaluating : Evaluating answer) (answers : ∀ ws d, Keeps Evolves (answer ws d)) :
    Resolving answer Evolves :=
  { lasting with
    wrapped := fun ws w r => by
      rw [Types.wrapped_eq]
      exact obtained evaluating answers ws _ _ _
    type := fun ws r => by
      rw [Types.type_eq]
      exact obtained evaluating answers ws _ _ _ }

theorem evaluate (evaluating : Evaluating answer) (answers : ∀ ws d, Keeps Evolves (answer ws d))
    (ws : List Value) (d : Deferred) : Keeps Evolves (d.evaluate ⟨ws, answer⟩) :=
  addition.toBuilding.evaluate ws d fun _ => (resolving evaluating answers).toObserving

end Evolves

namespace Deferred

theorem evaluating_callWithin (n : Nat) : Evaluating (callWithin n) := by
  intro ws d s
  cases n with
  | zero =>
    unfold callWithin
    split
    · exact .inl ⟨_, rfl⟩
    · exact .inr rfl
  | succ n => exact .inl ⟨_, rfl⟩

theorem evaluating : Evaluating supplier.answer := fun ws d s =>
  evaluating_callWithin (s.reach + d.body.weight + 1) ws d s

/-- The induction is on the calls that may lie inside a call. -/
theorem evolves_callWithin (n : Nat) (ws : List Value) (d : Deferred) :
    Keeps Evolves (callWithin n ws d) := by
  induction n generalizing ws d with
  | zero =>
    unfold callWithin
    split
    · exact Evolves.evaluate (fun _ _ _ => .inr rfl) (fun _ _ => Evolves.lasting.throw _) ws d
    · exact Evolves.lasting.throw _
  | succ n ih => exact Evolves.evaluate (evaluating_callWithin n) ih ws d

end Deferred

namespace Evolves

theorem call (ws : List Value) (d : Deferred) : Keeps Evolves (Deferred.supplier.answer ws d) :=
  lasting.bounded fun n => Deferred.evolves_callWithin n ws d

theorem observed : Observed Deferred.supplier.answer Evolves :=
  { resolving Deferred.evaluating call with note }

end Evolves

/-! ### Cells that are filled later -/

/-- A session that came of another one, in which the first thing to be added was a cell of a kind.
As long as the cell is filled, it matters to no other session. -/
structure Founds (k : CellKind) (t t' : Session) : Prop where
  bindings : t'.bindings = t.bindings
  used (k' : Option CellKind) : t.used k' ≤ t'.used k'
  live : t.count k < t'.count k
  ahead {φ : Pairing} {home : Homes} {s : Session} : Ahead φ home s t →
    ∃ home', (∀ k j, j < t.used k → home' k j = home k j) ∧ home' (some k) (t.count k) = none ∧
      Ahead φ home' s t'

namespace Founds

theorem evolves (h : Founds k t t') : Evolves t t' where
  bindings := h.bindings
  used := h.used
  ahead ahead :=
    let ⟨home', same, _, ahead'⟩ := h.ahead ahead
    ⟨home', same, ahead'⟩

theorem later (h : Founds k t t') (h' : Evolves t' t'') : Founds k t t'' where
  bindings := h'.bindings.trans h.bindings
  used k' := Nat.le_trans (h.used k') (h'.used k')
  live := Nat.lt_of_lt_of_le h.live (h'.used (some k))
  ahead ahead := by
    obtain ⟨home', same, away, ahead'⟩ := h.ahead ahead
    obtain ⟨home'', same', ahead''⟩ := h'.ahead ahead'
    refine ⟨home'', fun k' j live => ?_, ?_, ahead''⟩
    · rw [same' k' j (Nat.lt_of_lt_of_le live (h.used k')), same k' j live]
    · rw [same' _ _ h.live, away]

theorem add (t : Session) (c : Cell) : Founds c.kind t (t.add c) where
  bindings := t.bindings_add c
  used := (Evolves.add t c).used
  live := by
    have used : (t.add c).count c.kind = _ := t.used_add c (some c.kind)
    rw [used, if_pos rfl]
    exact Nat.lt_succ_self _
  ahead {_ home _} ahead := by
    refine ⟨home, fun _ _ _ => rfl, ?_, ahead.later (Evolves.add t c).used (fun k j placed => ?_)
      (t.bindings_add c)⟩
    · cases at' : home (some c.kind) (t.count c.kind) with
      | none => rfl
      | some o => exact absurd (ahead.housed at').1 (Nat.lt_irrefl _)
    · refine Session.cell_add_of_lt c ?_
      rcases placed with ⟨i, paired⟩ | ⟨o, at'⟩
      · exact (ahead.within paired).2
      · exact (ahead.housed at').1

theorem fill (h : Founds k t t') (kind : c.kind = k) : Founds k t (t'.put (t.count k) c) where
  bindings := (t'.bindings_put _ _).trans h.bindings
  used k' := by
    rw [Session.used_put]
    exact h.used k'
  live := by
    have used : (t'.put (t.count k) c).count k = t'.count k := t'.used_put _ c (some k)
    rw [used]
    exact h.live
  ahead ahead := by
    obtain ⟨home', same, away, ahead'⟩ := h.ahead ahead
    refine ⟨home', same, away, ahead'.put_of_not_placed ?_ kind⟩
    rintro (⟨i, paired⟩ | ⟨o, at'⟩)
    · exact absurd (ahead.within paired).2 (Nat.lt_irrefl _)
    · rw [away] at at'
      cases at'

end Founds

/-- Whatever is copied in a session that goes on alone. -/
theorem Evolves.furnishing : Furnishing Evolves Founds :=
  { addition.toStocking, lasting with
    checked := observed.toChecked
    call
    newArgument := addition.newArgument
    madeList := fun t => .add t (.list [])
    madeSet := fun t => .add t (.set [])
    madeDict := fun t => .add t (.dict [])
    madeNamedType := fun t => .add t (.named .blank)
    madeWrapper := fun t => .add t (.wrapper .blank)
    madeArgument := fun t => .add t (.argument .blank)
    later := Founds.later
    since := Founds.evolves
    fillList := fun items h => h.fill (c := .list items) rfl
    fillSet := fun members h => h.fill (c := .set members) rfl
    fillDict := fun entries h => h.fill (c := .dict entries) rfl
    fillNamedType := fun c h => h.fill (c := .named c) rfl
    fillWrapper := fun c h => h.fill (c := .wrapper c) rfl
    fillArgument := fun c h => h.fill (c := .argument c) rfl }

end DirectiveSchema

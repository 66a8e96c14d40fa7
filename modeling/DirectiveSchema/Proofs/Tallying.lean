import DirectiveSchema.Proofs.Evolving

/-!
Actions that tally. One is run in a session, the other in a session that is ahead of it: both return
paired results or meet faults that read alike, and the second session remains ahead. The first one
may meet nesting without an end before the second one does, which has room for more. A strict tally
says what becomes of the second session even then, and that no fault holds a datum.
-/
namespace DirectiveSchema

open Pairing

variable {α β α' β' : Type} {φ ψ : Pairing} {s t s' t' : Session} {k : CellKind} {i j : Nat}
  {strict : Prop}

theorem Abreast.evolves (h : Abreast φ s t) (h' : Evolves t t') : Abreast φ s t' :=
  h.elim fun _ ahead => let ⟨home', _, ahead'⟩ := h'.ahead ahead; ⟨home', ahead'⟩

/-- What the first session has in use remains so as long as it remains paired. -/
theorem Abreast.identity_le (h : Abreast φ s t) (le : φ ≤ ψ) (h' : Abreast ψ s' t') :
    s.identity ≤ s'.identity := by
  obtain ⟨_, ahead⟩ := h
  obtain ⟨_, ahead'⟩ := h'
  rintro k i _ ⟨rfl, live⟩
  obtain ⟨j, paired⟩ := ahead.total live
  exact ⟨rfl, (ahead'.within (le k i j paired)).1⟩

/-- How two actions end that tally. -/
inductive Tally (strict : Prop) (φ : Pairing) (x : Action α) (y : Action β)
    (post : Pairing → α → β → Prop) (s t : Session) : Prop where
  | ok {ψ : Pairing} {a : α} {b : β} {s' t' : Session} : x s = .ok a s' → y t = .ok b t' →
      φ ≤ ψ → Abreast ψ s' t' → post ψ a b → Tally strict φ x y post s t
  | error {ψ : Pairing} {e f : Fault} {s' t' : Session} : x s = .error e s' → y t = .error f t' →
      φ ≤ ψ → Abreast ψ s' t' → ψ.RelatesFaults e f → (strict → e.IsPlain) →
        Tally strict φ x y post s t
  | endless {e : Fault} {s' : Session} : x s = .error e s' → e.kind = .recursion → s'.Coherent →
      s.identity ≤ s'.identity → (strict → ∃ ψ, φ ≤ ψ ∧ Abreast ψ s' (y.after t)) →
        Tally strict φ x y post s t

namespace Tally

variable {mid post : Pairing → α → β → Prop} {next : Pairing → α' → β' → Prop} {x : Action α}
  {y : Action β} {f : α → Action α'} {g : β → Action β'}

/-- What goes on as two actions that tally does so itself. -/
theorem later {x' : Action α} {y' : Action β} (h : Tally strict ψ x y post s' t')
    (same : x' s = x s') (same' : y' t = y t') (le : φ ≤ ψ) (used : s.identity ≤ s'.identity) :
    Tally strict φ x' y' post s t := by
  cases h with
  | ok run run' le' abreast related =>
    exact .ok (same.trans run) (same'.trans run') (le_trans le le') abreast related
  | error run run' le' abreast related plain =>
    exact .error (same.trans run) (same'.trans run') (le_trans le le') abreast related plain
  | endless run endless coherent used' goesOn =>
    refine .endless (same.trans run) endless coherent (le_trans used used') fun holds => ?_
    obtain ⟨χ, le', abreast⟩ := goesOn holds
    have after : y'.after t = y.after t' := by simp only [Action.after, same']
    exact ⟨χ, le_trans le le', after ▸ abreast⟩

theorem weaken (h : Tally strict φ x y mid s t)
    (rest : ∀ {ψ a b}, φ ≤ ψ → mid ψ a b → post ψ a b) : Tally strict φ x y post s t := by
  cases h with
  | ok run run' le abreast related => exact .ok run run' le abreast (rest le related)
  | error run run' le abreast related plain => exact .error run run' le abreast related plain
  | endless run endless coherent used goesOn => exact .endless run endless coherent used goesOn

/-- A tally may be less strict. -/
theorem lax (h : Tally strict φ x y post s t) : Tally False φ x y post s t := by
  cases h with
  | ok run run' le abreast related => exact .ok run run' le abreast related
  | error run run' le abreast related => exact .error run run' le abreast related False.elim
  | endless run endless coherent used => exact .endless run endless coherent used False.elim

/-- The second session goes on alone if the first one met nesting without an end. -/
theorem bindKept (first : Tally strict φ x y mid s t) (abreast : Abreast φ s t)
    (kept : strict → ∀ b, Keeps Evolves (g b))
    (rest : ∀ {ψ a b s' t'}, φ ≤ ψ → y t = .ok b t' → Abreast ψ s' t' → mid ψ a b →
      Tally strict ψ (f a) (g b) next s' t') : Tally strict φ (x >>= f) (y >>= g) next s t := by
  cases first with
  | ok run run' le abreast' related =>
    exact (rest le run' abreast' related).later (Action.bind_of_ok run) (Action.bind_of_ok run') le
      (abreast.identity_le le abreast')
  | error run run' le abreast' related plain =>
    exact .error (Action.bind_of_error run) (Action.bind_of_error run') le abreast' related plain
  | endless run endless coherent used goesOn =>
    refine .endless (Action.bind_of_error run) endless coherent used fun holds => ?_
    obtain ⟨ψ, le, abreast'⟩ := goesOn holds
    refine ⟨ψ, le, ?_⟩
    cases run' : y t with
    | ok b t' =>
      rw [Action.after_of_ok run'] at abreast'
      have after : (y >>= g).after t = (g b).after t' := by
        simp only [Action.after, Action.bind_of_ok run']
      exact after ▸ abreast'.evolves (kept holds b t')
    | error e t' =>
      rw [Action.after_of_error run'] at abreast'
      rwa [Action.after_of_error (Action.bind_of_error run')]

end Tally

/-- Actions that tally wherever the second session is ahead. -/
def Tallies (strict : Prop) : PairClass := fun φ x y post =>
  ∀ s t, Abreast φ s t → Tally strict φ x y post s t

namespace Tallies

variable {mid : Pairing → α → β → Prop} {post : Pairing → α → β → Prop}
  {next : Pairing → α' → β' → Prop} {x : Action α} {y : Action β} {f : α → Action α'}
  {g : β → Action β'}

theorem pure {a : α} {b : β} (related : post φ a b) :
    Tallies strict φ (Pure.pure a) (Pure.pure b) post :=
  fun _ _ abreast => .ok rfl rfl (le_refl φ) abreast related

theorem fault {e e' : Fault} (related : φ.RelatesFaults e e') (plain : strict → e.IsPlain) :
    Tallies strict φ (throw e : Action α) (throw e' : Action β) post :=
  fun _ _ abreast => .error rfl rfl (le_refl φ) abreast related plain

theorem throw {e : Fault} (plain : e.IsPlain) :
    Tallies strict φ (MonadExcept.throw e : Action α) (MonadExcept.throw e : Action β) post :=
  fault (.refl plain) fun _ => plain

theorem throwFirst {e : Fault} (plain : e.IsPlain) :
    Tallies strict φ (MonadExcept.throw e >>= f) (MonadExcept.throw e >>= g) next :=
  throw plain

/-- What has no room for any nesting tallies with whatever has. -/
theorem noRoom {e : Fault} (endless : e.kind = .recursion) (kept : strict → Keeps Evolves y) :
    Tallies strict φ (MonadExcept.throw e : Action α) y post := fun _ t abreast =>
  .endless rfl endless abreast.coherent (le_refl _) fun holds =>
    ⟨φ, le_refl φ, abreast.evolves (kept holds t)⟩

theorem bindKept (first : Tallies strict φ x y mid) (kept : strict → ∀ b, Keeps Evolves (g b))
    (rest : ∀ {ψ a b}, φ ≤ ψ → mid ψ a b → Tallies strict ψ (f a) (g b) next) :
    Tallies strict φ (x >>= f) (y >>= g) next := fun s t abreast =>
  (first s t abreast).bindKept abreast kept fun le _ abreast' related =>
    rest le related _ _ abreast'

theorem bind (first : Tallies False φ x y mid)
    (rest : ∀ {ψ a b}, φ ≤ ψ → mid ψ a b → Tallies False ψ (f a) (g b) next) :
    Tallies False φ (x >>= f) (y >>= g) next :=
  first.bindKept (fun holds => holds.elim) rest

theorem mapKept {f : α → α'} {g : β → β'} (first : Tallies strict φ x y mid)
    (rest : ∀ {ψ a b}, φ ≤ ψ → mid ψ a b → next ψ (f a) (g b)) :
    Tallies strict φ (do return f (← x)) (do return g (← y)) next :=
  first.bindKept (fun _ _ => Evolves.lasting.pure _) fun le related => pure (rest le related)

theorem weaken (first : Tallies strict φ x y mid)
    (rest : ∀ {ψ a b}, φ ≤ ψ → mid ψ a b → post ψ a b) : Tallies strict φ x y post :=
  fun s t abreast => (first s t abreast).weaken rest

/-- What is read of the sessions. -/
theorem read {f : Session → Action α} {g : Session → Action β}
    (rest : ∀ s t, Abreast φ s t → Tallies strict φ (f s) (g t) post) :
    Tallies strict φ (MonadState.get >>= f) (MonadState.get >>= g) post := fun s t abreast =>
  (rest s t abreast s t abreast).later rfl rfl (le_refl φ) (le_refl _)

theorem bounded {outside outside' : Nat} {f : Nat → Action α} {g : Nat → Action β}
    (same : outside' = outside)
    (each : ∀ n m, 0 < n → n ≤ m → Tallies strict φ (f n) (g m) post) :
    Tallies strict φ (Action.bounded outside f) (Action.bounded outside' g) post := by
  refine read fun s t abreast => ?_
  obtain ⟨_, ahead⟩ := abreast
  have := ahead.reach_le
  exact each _ _ (Nat.succ_pos _) (by omega)

theorem boundedPairs {outside outside' : Nat} {f : Nat → Action α} {g : Nat → Action β}
    (same : outside' = outside)
    (each : ∀ n m, 0 < n → n ≤ m → Tallies strict φ (f n) (g m) post) :
    Tallies strict φ (Action.boundedPairs outside f) (Action.boundedPairs outside' g) post :=
  bounded same fun _ _ pos le => each _ _ (Nat.mul_pos pos pos) (Nat.mul_le_mul le le)

theorem mapM {R : Pairing → α → β → Prop} {S : Pairing → α' → β' → Prop}
    (kept : strict → ∀ b, Keeps Evolves (g b))
    (mono : ∀ {φ ψ a b}, φ ≤ ψ → R φ a b → R ψ a b)
    (mono' : ∀ {φ ψ a b}, φ ≤ ψ → S φ a b → S ψ a b)
    (step : ∀ {φ a b}, R φ a b → Tallies strict φ (f a) (g b) S) {as : List α} {bs : List β}
    (related : List.Forall₂ (R φ) as bs) :
    Tallies strict φ (as.mapM f) (bs.mapM g) fun ψ => List.Forall₂ (S ψ) := by
  induction as generalizing φ bs with
  | nil =>
    cases related with
    | nil => exact pure .nil
  | cons a as ih =>
    cases related with
    | cons first rest =>
      rw [List.mapM_cons, List.mapM_cons]
      refine (step first).bindKept (fun holds b => ?_) fun {ψ _ _} le related => ?_
      · exact Evolves.lasting.bind (Evolves.lasting.mapM (kept holds) _) fun _ =>
          Evolves.lasting.pure _
      · refine (ih (rest.imp fun _ _ => mono le)).mapKept fun le' rest => ?_
        exact .cons (mono' le' related) rest

theorem foldlM {α' β' : Type} {R : Pairing → α → β → Prop} {S : Pairing → α' → β' → Prop}
    {f : α' → α → Action α'} {g : β' → β → Action β'}
    (mono : ∀ {φ ψ a b}, φ ≤ ψ → R φ a b → R ψ a b)
    (step : ∀ {φ a b c d}, S φ c d → R φ a b → Tallies False φ (f c a) (g d b) S)
    {as : List α} {bs : List β} (related : List.Forall₂ (R φ) as bs) {c : α'} {d : β'}
    (done : S φ c d) : Tallies False φ (as.foldlM f c) (bs.foldlM g d) S := by
  induction as generalizing φ bs c d with
  | nil =>
    cases related with
    | nil => exact pure done
  | cons a as ih =>
    cases related with
    | cons first rest =>
      rw [List.foldlM_cons, List.foldlM_cons]
      exact (step done first).bind fun le done => ih (rest.imp fun _ _ => mono le) done

/-- A test that is answered alike decides how to go on. -/
theorem test {u v : Action α} {u' v' : Action β} {x y : Action Bool}
    (first : Tallies False φ x y fun _ a b => b = a)
    (yes : ∀ {ψ}, φ ≤ ψ → Tallies False ψ u u' post)
    (no : ∀ {ψ}, φ ≤ ψ → Tallies False ψ v v' post) :
    Tallies False φ (do if ← x then u else v) (do if ← y then u' else v') post := by
  refine first.bind fun {ψ a b} le same => ?_
  subst same
  cases b with
  | true => exact yes le
  | false => exact no le

/-- Two sessions that gain the same. -/
theorem of_repeats (h : Repeats φ x y post) : Tallies strict φ x y post := by
  rintro s t ⟨home, ahead⟩
  cases h s t ahead.empty ahead.bindings with
  | ok run run' gains related =>
    exact .ok run run' (le_gained _ _ _ _) ⟨home, ahead.gain gains⟩ related
  | error run run' gains plain =>
    exact .error run run' (le_gained _ _ _ _) ⟨home, ahead.gain gains⟩ (.refl plain) fun _ => plain

/-- Whatever is built in two sessions. -/
theorem tandem : Tandem (Tallies False) where
  pure := pure
  throw := throw
  bind first rest := first.bind rest
  emptyRow := of_repeats Repeats.tandem.emptyRow
  freshTag := of_repeats Repeats.tandem.freshTag
  newCell cells unresolved := of_repeats (Repeats.tandem.newCell cells unresolved)
  lookup name := of_repeats (Repeats.tandem.lookup name)

end Tallies

/-! ### Types that are obtained -/

/-- A call is answered by the evaluation of its body. -/
theorem Deferred.answer_eq (ws : List Value) (d : Deferred) (s : Session) :
    ∃ supply, supplier.answer ws d s = d.evaluate supply s :=
  ⟨⟨ws, callWithin (s.reach + d.body.weight)⟩, rfl⟩

/-- Paired data are references that call alike, or answer themselves. -/
theorem Pairing.Relates.demand_cases {v w : Value} (h : φ.Relates v w) :
    (∃ a b counter body, v = .deferred ⟨a, counter, body⟩ ∧ w = .deferred ⟨b, counter, body⟩ ∧
      body.isQuiet true = true) ∨
      (∀ supply s, Types.demand supply v s = .ok v s) ∧
        ∀ supply s, Types.demand supply w s = .ok w s := by
  cases h with
  | deferred counter _ quiet => exact .inl ⟨_, _, counter, _, rfl, rfl, quiet⟩
  | _ => exact .inr ⟨fun _ _ => rfl, fun _ _ => rfl⟩

/-- References to types are called alike, and what the calls build is gained by both sessions. -/
theorem Ahead.demanded {home : Homes} (h : Ahead φ home s t) {ws ws' : List Value} {v w : Value}
    (related : φ.Relates v w) :
    (∃ ψ a b s' t', Types.demand ⟨ws, Deferred.supplier.answer⟩ v s = .ok a s' ∧
      Types.demand ⟨ws', Deferred.supplier.answer⟩ w t = .ok b t' ∧ φ ≤ ψ ∧ Ahead ψ home s' t' ∧
        ψ.Relates a b) ∨
      ∃ ψ e s' t', Types.demand ⟨ws, Deferred.supplier.answer⟩ v s = .error e s' ∧
        Types.demand ⟨ws', Deferred.supplier.answer⟩ w t = .error e t' ∧ φ ≤ ψ ∧
          Ahead ψ home s' t' ∧ e.IsPlain := by
  rcases related.demand_cases with ⟨a, b, counter, body, rfl, rfl, quiet⟩ | ⟨answered, answered'⟩
  · obtain ⟨supply, answer⟩ := Deferred.answer_eq ws ⟨a, counter, body⟩ s
    obtain ⟨supply', answer'⟩ := Deferred.answer_eq ws' ⟨b, counter, body⟩ t
    cases Repeats.evaluate (a := a) (b := b) (c := counter) quiet supply supply' φ s t h.empty
      h.bindings with
    | ok run run' gains related =>
      exact .inl ⟨_, _, _, _, _, answer.trans run, answer'.trans run', le_gained _ _ _ _,
        h.gain gains, related⟩
    | error run run' gains plain =>
      exact .inr ⟨_, _, _, _, answer.trans run, answer'.trans run', le_gained _ _ _ _,
        h.gain gains, plain⟩
  · exact .inl ⟨_, _, _, _, _, answered _ _, answered' _ _, le_refl φ, h, related⟩

namespace Ahead

variable {home : Homes} {source source' v w : Value} {ws ws' : List Value} {missing : Fault}
  (h : Ahead φ home s t) (paired : φ (some k) i j) (unresolved : (s.cell k i).resolved? = none)

include h paired unresolved

/-- A type that neither session has obtained. -/
theorem obtain_both (unresolved' : (t.cell k j).resolved? = none)
    (based : (s.cell k i).source? = some source) (based' : (t.cell k j).source? = some source')
    (related : φ.Relates source source') :
    Tally strict φ (Types.obtained ⟨ws, Deferred.supplier.answer⟩ k i missing)
      (Types.obtained ⟨ws', Deferred.supplier.answer⟩ k j missing) Relates s t := by
  rcases h.demanded related with ⟨ψ, a, b, s', t', run, run', le, ahead, related⟩ |
    ⟨ψ, e, s', t', run, run', le, ahead, plain⟩
  · exact .ok (Types.obtained_of_demand unresolved based run)
      (Types.obtained_of_demand unresolved' based' run') le
      ⟨home, ahead.resolve (le _ _ _ paired) related⟩ related
  · exact .error (Types.obtained_of_fault unresolved based run)
      (Types.obtained_of_fault unresolved' based' run') le ⟨home, ahead⟩ (.refl plain)
      fun _ => plain

/-- A type that the second session has obtained before. -/
theorem obtain_late (resolved : (t.cell k j).resolved? = some w) :
    Tally strict φ (Types.obtained ⟨ws, Deferred.supplier.answer⟩ k i missing)
      (Types.obtained ⟨ws', Deferred.supplier.answer⟩ k j missing) Relates s t := by
  have pending := h.late paired unresolved resolved
  have notNull := pending.notNull
  have sources := (h.cells paired).source?
  have obtained : Types.obtained ⟨ws', Deferred.supplier.answer⟩ k j missing t = .ok w t :=
    Types.obtained_of_resolved resolved
  cases pending with
  | known based' known =>
    rw [based'] at sources
    generalize based : (s.cell k i).source? = source at sources
    cases sources with
    | @some v w related =>
      have answered : Types.demand ⟨ws, Deferred.supplier.answer⟩ v s = .ok v s := by
        rcases related.demand_cases with ⟨a, b, counter, body, rfl, rfl, quiet⟩ | ⟨answered, -⟩
        · cases known
        · exact answered _ _
      have kept : Ahead φ home (s.put i ((s.cell k i).resolve v))
          (t.put j ((t.cell k j).resolve w)) := by
        refine h.put paired (by simp) ((h.cells paired).resolve related) fun forgotten => ?_
        rw [Cell.resolved?_resolve based, Types.kept_of_not_isNull (related.isNull_eq ▸ notNull)]
          at forgotten
        cases forgotten
      rw [Cell.resolve_of_resolved resolved notNull, Session.put_cell] at kept
      exact .ok (Types.obtained_of_demand unresolved based answered) obtained (le_refl φ)
        ⟨home, kept⟩ related
  | @called supply' d t₀ t₁ based' quiet notNull run bound built became =>
    rw [based'] at sources
    generalize based : (s.cell k i).source? = source at sources
    cases sources with
    | some related =>
      cases related with
      | @deferred a b counter body =>
        obtain ⟨supply, answer⟩ := Deferred.answer_eq ws ⟨a, counter, body⟩ s
        obtain ⟨ψ, home', v, s', le, run', related, ahead⟩ := h.replay a supply paired
          unresolved resolved notNull quiet run bound built became
        exact .ok (Types.obtained_of_demand unresolved based (answer.trans run')) obtained le
          ⟨home', ahead⟩ related

end Ahead

namespace Tallies

variable {ws ws' : List Value}

theorem demand {v w : Value} (related : φ.Relates v w) :
    Tallies strict φ (Types.demand ⟨ws, Deferred.supplier.answer⟩ v)
      (Types.demand ⟨ws', Deferred.supplier.answer⟩ w) Relates := by
  rintro s t ⟨home, h⟩
  rcases h.demanded related with ⟨ψ, a, b, s', t', run, run', le, ahead, related⟩ |
    ⟨ψ, e, s', t', run, run', le, ahead, plain⟩
  · exact .ok run run' le ⟨home, ahead⟩ related
  · exact .error run run' le ⟨home, ahead⟩ (.refl plain) fun _ => plain

/-- Types are obtained alike, whichever session has obtained them before. -/
theorem obtained (paired : φ (some k) i j) {missing : Fault} (plain : missing.IsPlain) :
    Tallies strict φ (Types.obtained ⟨ws, Deferred.supplier.answer⟩ k i missing)
      (Types.obtained ⟨ws', Deferred.supplier.answer⟩ k j missing) Relates := by
  rintro s t ⟨home, h⟩
  cases resolved : (s.cell k i).resolved? with
  | some v =>
    obtain ⟨w, resolved', related⟩ := (h.cells paired).resolved? v resolved
    exact .ok (Types.obtained_of_resolved resolved) (Types.obtained_of_resolved resolved')
      (le_refl φ) ⟨home, h⟩ related
  | none =>
    cases resolved' : (t.cell k j).resolved? with
    | some w => exact h.obtain_late paired resolved resolved'
    | none =>
      have sources := (h.cells paired).source?
      generalize based : (s.cell k i).source? = source at sources
      generalize based' : (t.cell k j).source? = source' at sources
      cases sources with
      | none =>
        exact .error (Types.obtained_of_blank resolved based)
          (Types.obtained_of_blank resolved' based') (le_refl φ) ⟨home, h⟩ (.refl plain)
          fun _ => plain
      | some related => exact h.obtain_both paired resolved resolved' based based' related

theorem wrapped (w : Wrapper) {r r' : Ref .wrapper} (paired : φ (some .wrapper) r.index r'.index) :
    Tallies strict φ (Types.wrapped ⟨ws, Deferred.supplier.answer⟩ w r)
      (Types.wrapped ⟨ws', Deferred.supplier.answer⟩ w r') Relates := by
  rw [Types.wrapped_eq, Types.wrapped_eq]
  exact obtained paired (.inl rfl)

theorem type {r r' : Ref .argument} (paired : φ (some .argument) r.index r'.index) :
    Tallies strict φ (Arguments.type ⟨ws, Deferred.supplier.answer⟩ r)
      (Arguments.type ⟨ws', Deferred.supplier.answer⟩ r') Relates := by
  rw [Types.type_eq, Types.type_eq]
  exact obtained paired (.inl rfl)

end Tallies

end DirectiveSchema

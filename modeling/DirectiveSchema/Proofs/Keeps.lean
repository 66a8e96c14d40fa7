import DirectiveSchema.Session

/-!
Runs of actions, step by step, and relations between sessions that actions keep. An action keeps a
relation when each of its runs relates the session before to the session after, whether it ends in a
result or in a fault. For a reflexive and transitive relation this is settled step by step.
-/
namespace DirectiveSchema

variable {α β : Type} {R : Session → Session → Prop}

namespace Action

variable {x : Action α} {f : α → Action β} {handle : Fault → Action α} {s s' : Session} {a : α}
  {e : Fault}

theorem bind_of_ok (h : x s = .ok a s') : (x >>= f) s = f a s' := by
  simp only [bind, EStateM.bind, h]

theorem bind_of_error (h : x s = .error e s') : (x >>= f) s = .error e s' := by
  simp only [bind, EStateM.bind, h]

/-- A step that carries something along. -/
theorem bindWith_of_ok {σ : Type} {x : StateT σ Action α} {f : α → StateT σ Action β}
    {carried carried' : σ} (h : x carried s = .ok (a, carried') s') :
    (x >>= f) carried s = f a carried' s' := bind_of_ok h

/-- A step that carries something along, up to its fault. -/
theorem bindWith_of_error {σ : Type} {x : StateT σ Action α} {f : α → StateT σ Action β}
    {carried : σ} (h : x carried s = .error e s') :
    (x >>= f) carried s = .error e s' := bind_of_error h

theorem lift_of_ok {σ : Type} {carried : σ} (h : x s = .ok a s') :
    (liftM x : StateT σ Action α) carried s = .ok (a, carried) s' :=
  (bind_of_ok h).trans rfl

theorem lift_of_error {σ : Type} {carried : σ} (h : x s = .error e s') :
    (liftM x : StateT σ Action α) carried s = .error e s' := bind_of_error h

/-- What returns after a step did so after the step returned. -/
theorem ok_of_bind {b : β} {s'' : Session} (h : (x >>= f) s = .ok b s'') :
    ∃ a s', x s = .ok a s' ∧ f a s' = .ok b s'' := by
  cases run : x s with
  | ok a s' => exact ⟨a, s', rfl, by rw [← h, bind_of_ok run]⟩
  | error e s' =>
    rw [bind_of_error run] at h
    cases h

/-- What returns after a step that carries something along did so after the step returned. -/
theorem ok_of_bindWith {σ : Type} {x : StateT σ Action α} {f : α → StateT σ Action β}
    {carried : σ} {p : β × σ} (h : (x >>= f) carried s = .ok p s') :
    ∃ a carried' s₁, x carried s = .ok (a, carried') s₁ ∧ f a carried' s₁ = .ok p s' := by
  obtain ⟨⟨a, carried'⟩, s₁, run, next⟩ := ok_of_bind (x := x carried) h
  exact ⟨a, carried', s₁, run, next⟩

theorem ok_of_lift {σ : Type} {carried carried' : σ}
    (h : (liftM x : StateT σ Action α) carried s = .ok (a, carried') s') :
    x s = .ok a s' ∧ carried' = carried := by
  obtain ⟨a', s₁, run, next⟩ := ok_of_bind (x := x) h
  cases next
  exact ⟨run, rfl⟩

/-- A step that is followed by a fault in any case ends in a fault. -/
theorem error_of_bind (rest : ∀ a s, ∃ e s', f a s = .error e s') (s : Session) :
    ∃ e s', (x >>= f) s = .error e s' := by
  cases run : x s with
  | ok a s₁ =>
    obtain ⟨e, s', failed⟩ := rest a s₁
    exact ⟨e, s', (bind_of_ok run).trans failed⟩
  | error e s₁ => exact ⟨e, s₁, bind_of_error run⟩

theorem tryCatch_of_ok (h : x s = .ok a s') : tryCatch x handle s = .ok a s' := by
  change EStateM.tryCatch x handle s = _
  delta EStateM.tryCatch
  rw [h]

theorem tryCatch_of_error (h : x s = .error e s') : tryCatch x handle s = handle e s' := by
  change EStateM.tryCatch x handle s = _
  delta EStateM.tryCatch
  rw [h]
  rfl

/-- Data that are mapped without an effect. -/
theorem mapM_of_ok {f : α → Action β} {g : α → β} {as : List α}
    (h : ∀ a ∈ as, f a s = .ok (g a) s) : as.mapM f s = .ok (as.map g) s := by
  induction as with
  | nil => rfl
  | cons a as ih =>
    rw [List.mapM_cons, bind_of_ok (h a List.mem_cons_self),
      bind_of_ok (ih fun b hb => h b (List.mem_cons_of_mem a hb))]
    rfl

/-- A bound on nesting is never zero. -/
theorem bounded_succ (outside : Nat) (f : Nat → Action α) (s : Session) :
    bounded outside f s = f (s.reach + outside + 1) s := rfl

theorem boundedPairs_succ (outside : Nat) (f : Nat → Action α) (s : Session) :
    ∃ n, s.reach + outside ≤ n ∧ boundedPairs outside f s = f (n + 1) s := by
  refine ⟨(s.reach + outside) * (s.reach + outside + 1) + (s.reach + outside), ?_, ?_⟩
  · exact Nat.le_add_left _ _
  · show f ((s.reach + outside + 1) * (s.reach + outside + 1)) s = _
    rw [Nat.succ_mul]
    rfl

end Action

/-- The session that an action leaves. -/
def Action.after (act : Action α) (s : Session) : Session :=
  match act s with
  | .ok _ s' => s'
  | .error _ s' => s'

theorem Action.after_of_ok {act : Action α} {s s' : Session} {a : α} (h : act s = .ok a s') :
    act.after s = s' := by
  simp only [after, h]

theorem Action.after_of_error {act : Action α} {s s' : Session} {f : Fault}
    (h : act s = .error f s') : act.after s = s' := by
  simp only [after, h]

/-- Whether an action ends in a fault. -/
def Action.fails (act : Action α) (s : Session) : Bool :=
  match act s with
  | .ok _ _ => false
  | .error _ _ => true

theorem Action.error_of_fails {act : Action α} {s : Session} (h : act.fails s = true) :
    ∃ f s', act s = .error f s' := by
  cases run : act s with
  | ok a s' => simp [fails, run] at h
  | error f s' => exact ⟨f, s', rfl⟩

/-- The kind of the fault that an action ends in, unless it returns. -/
def Action.faultKind? (act : Action α) (s : Session) : Option FaultKind :=
  match act s with
  | .ok _ _ => none
  | .error f _ => some f.kind

/-- What an action returns, unless it ends in a fault. -/
def Action.result? (act : Action α) (s : Session) : Option α :=
  match act s with
  | .ok a _ => some a
  | .error _ _ => none

/-- How an action ends, whatever it leaves. -/
def Action.outcome (act : Action α) (s : Session) : Except Fault α :=
  match act s with
  | .ok a _ => .ok a
  | .error f _ => .error f

theorem Action.result?_of_ok {act : Action α} {s s' : Session} {a : α} (h : act s = .ok a s') :
    act.result? s = some a := by
  simp only [result?, h]

theorem Action.ok_of_result? {act : Action α} {s : Session} {a : α}
    (h : act.result? s = some a) : ∃ s', act s = .ok a s' := by
  cases run : act s with
  | ok b s' =>
    simp only [result?, run, Option.some.injEq] at h
    exact ⟨s', h ▸ rfl⟩
  | error e s' => simp [result?, run] at h

def Keeps (R : Session → Session → Prop) (act : Action α) : Prop := ∀ s, R s (act.after s)

theorem Keeps.of_ok {act : Action α} {s s' : Session} {a : α} (h : Keeps R act)
    (run : act s = .ok a s') : R s s' := by
  simpa only [Action.after_of_ok run] using h s

theorem Keeps.of_error {act : Action α} {s s' : Session} {f : Fault} (h : Keeps R act)
    (run : act s = .error f s') : R s s' := by
  simpa only [Action.after_of_error run] using h s

/-- An action keeps a relation when its results and its faults do. -/
theorem Keeps.intro {act : Action α} (ok : ∀ s a s', act s = .ok a s' → R s s')
    (error : ∀ s f s', act s = .error f s' → R s s') : Keeps R act := by
  intro s
  cases run : act s with
  | ok a s' => simpa only [Action.after_of_ok run] using ok s a s' run
  | error f s' => simpa only [Action.after_of_error run] using error s f s' run

/-- An action keeps what relates a session, from some time before, to those that came of it. -/
def KeepsSince (R : Session → Session → Prop) (s₀ : Session) (act : Action α) : Prop :=
  ∀ s, R s₀ s → R s₀ (act.after s)

theorem KeepsSince.bind {s₀ : Session} {x : Action α} {f : α → Action β}
    (first : KeepsSince R s₀ x) (rest : ∀ a, KeepsSince R s₀ (f a)) :
    KeepsSince R s₀ (x >>= f) := by
  intro s since
  have kept := first s since
  cases run : x s with
  | ok a s' =>
    have same : (x >>= f).after s = (f a).after s' := by
      simp only [Action.after, Action.bind_of_ok run]
    rw [Action.after_of_ok run] at kept
    exact same ▸ rest a s' kept
  | error e s' =>
    rw [Action.after_of_error (Action.bind_of_error run)]
    rwa [Action.after_of_error run] at kept

/-- A relation that holds of sessions which nothing happened to, and from step to step. -/
structure Lasting (R : Session → Session → Prop) : Prop where
  refl (s : Session) : R s s
  trans {a b c : Session} : R a b → R b c → R a c

namespace Lasting

theorem pure (h : Lasting R) (a : α) : Keeps R (Pure.pure a) := h.refl

theorem throw (h : Lasting R) (f : Fault) : Keeps R (throw f : Action α) := h.refl

theorem get (h : Lasting R) : Keeps R get := h.refl

theorem since (h : Lasting R) {x : Action α} (kept : Keeps R x) (s₀ : Session) :
    KeepsSince R s₀ x := fun s earlier => h.trans earlier (kept s)

theorem bind (h : Lasting R) {x : Action α} {f : α → Action β} (first : Keeps R x)
    (rest : ∀ a, Keeps R (f a)) : Keeps R (x >>= f) := fun s =>
  (h.since first s).bind (fun a => h.since (rest a) s) s (h.refl s)

/-- Nothing follows a fault. -/
theorem throwFirst (h : Lasting R) (f : Fault) {rest : α → Action β} :
    Keeps R (MonadExcept.throw f >>= rest) := h.refl

/-- What an action reads of the session is known to the rest of it. -/
theorem bindGet (h : Lasting R) {f : Session → Action β} (rest : ∀ s, Keeps R (f s)) :
    Keeps R (MonadState.get >>= f) := h.bind h.get rest

theorem tryCatch (h : Lasting R) {x : Action α} {f : Fault → Action α} (first : Keeps R x)
    (rest : ∀ e, Keeps R (f e)) : Keeps R (tryCatch x f) := by
  intro s
  cases run : x s with
  | ok a s' =>
    rw [Action.after_of_ok (Action.tryCatch_of_ok run)]
    exact first.of_ok run
  | error e s' =>
    have same : (MonadExcept.tryCatch x f).after s = (f e).after s' := by
      simp only [Action.after, Action.tryCatch_of_error run]
    exact same ▸ h.trans (first.of_error run) (rest e s')

theorem modify {f : Session → Session} (step : ∀ s, R s (f s)) : Keeps R (modify f) := step

theorem modifyGet {f : Session → α × Session} (step : ∀ s, R s (f s).2) :
    Keeps R (modifyGet f : Action α) := step

theorem bounded (h : Lasting R) {outside : Nat} {f : Nat → Action α}
    (rest : ∀ n, Keeps R (f n)) : Keeps R (Action.bounded outside f) :=
  h.bindGet fun _ => rest _

theorem boundedPairs (h : Lasting R) {outside : Nat} {f : Nat → Action α}
    (rest : ∀ n, Keeps R (f n)) : Keeps R (Action.boundedPairs outside f) :=
  h.bounded fun _ => rest _

theorem mapM_of_mem (h : Lasting R) {f : α → Action β} {as : List α}
    (step : ∀ a ∈ as, Keeps R (f a)) : Keeps R (as.mapM f) := by
  induction as with
  | nil => exact h.pure []
  | cons a as ih =>
    rw [List.mapM_cons]
    exact h.bind (step a List.mem_cons_self) fun b =>
      h.bind (ih fun c hc => step c (List.mem_cons_of_mem a hc)) fun bs => h.pure (b :: bs)

theorem mapM (h : Lasting R) {f : α → Action β} (step : ∀ a, Keeps R (f a)) (as : List α) :
    Keeps R (as.mapM f) := h.mapM_of_mem fun a _ => step a

theorem foldlM (h : Lasting R) {f : β → α → Action β} (step : ∀ b a, Keeps R (f b a))
    (as : List α) (b : β) : Keeps R (as.foldlM f b) := by
  induction as generalizing b with
  | nil => exact h.pure b
  | cons a as ih =>
    rw [List.foldlM_cons]
    exact h.bind (step b a) ih

end Lasting

end DirectiveSchema

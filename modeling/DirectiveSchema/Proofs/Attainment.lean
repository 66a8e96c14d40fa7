import DirectiveSchema.Proofs.Copying
import DirectiveSchema.Proofs.Transcription

/-!
What actions attain. An action is run in a session that has a property, and leaves one that does;
what it carries along and what it returns have to do with each other, too. This is settled step by
step.
-/
namespace DirectiveSchema

variable {α β σ : Type} {I : Session → Prop} {s s' : Session} {carried carried' : σ}

/-! ### Data that stand for themselves -/

namespace Value

variable {u v : Value}

/-- Null and the truth values. -/
def isConstant : Value → Bool
  | .null | .bool _ => true
  | _ => false

theorem eq_of_same_of_isConstant (same : u.same v = true) (constant : v.isConstant = true) :
    u = v := by
  cases v with
  | null => cases u <;> first | rfl | cases same
  | bool b => cases u <;> first | exact congrArg _ (beq_iff_eq.1 same) | cases same
  | _ => cases constant

theorem isNonNull_eq_of_same (same : u.same v = true) : u.isNonNull = v.isNonNull := by
  cases right : v.isNonNull with
  | true =>
    obtain ⟨r, rfl⟩ := eq_of_isNonNull right
    cases u with
    | wrapper w q =>
      simp only [Value.same, Bool.and_eq_true, beq_iff_eq] at same
      rw [same.1]
      rfl
    | _ => cases same
  | false =>
    cases left : u.isNonNull with
    | false => rfl
    | true => exact absurd (isNonNull_of_same same left) (by simp [right])

end Value

/-! ### What actions attain that carry something along -/

/-- A property of sessions is kept. -/
def Upholds (I : Session → Prop) (s s' : Session) : Prop := I s → I s'

theorem Upholds.lasting : Lasting (Upholds I) where
  refl _ := id
  trans first next := next ∘ first

/-- Run in a session that has a property, an action leaves one that does; and of what it carries
along and of what it returns something holds. -/
def Attains (I : Session → Prop) (carried : σ) (x : StateT σ Action α) (post : σ → α → Prop) :
    Prop :=
  ∀ s, I s → match x carried s with
    | .ok (a, carried') s' => I s' ∧ post carried' a
    | .error _ s' => I s'

namespace Attains

variable {x : StateT σ Action α} {post post' : σ → α → Prop} {next : σ → β → Prop} {a : α}

theorem of_ok (h : Attains I carried x post) (holds : I s)
    (run : x carried s = .ok (a, carried') s') : I s' ∧ post carried' a := by
  have attained := h s holds
  rwa [run] at attained

theorem of_error (h : Attains I carried x post) (holds : I s) {f : Fault}
    (run : x carried s = .error f s') : I s' := by
  have attained := h s holds
  rwa [run] at attained

theorem intro (ok : ∀ s a carried' s', I s → x carried s = .ok (a, carried') s' →
      I s' ∧ post carried' a)
    (error : ∀ s f s', I s → x carried s = .error f s' → I s') : Attains I carried x post := by
  intro s holds
  cases run : x carried s with
  | ok p s' => exact ok s p.1 p.2 s' holds run
  | error f s' => exact error s f s' holds run

theorem pure (h : post carried a) : Attains I carried (Pure.pure a) post :=
  fun _ holds => ⟨holds, h⟩

theorem throw (f : Fault) :
    Attains I carried (MonadExcept.throw f : StateT σ Action α) post := fun _ holds => holds

theorem bind {f : α → StateT σ Action β} (first : Attains I carried x post)
    (rest : ∀ carried' a, post carried' a → Attains I carried' (f a) next) :
    Attains I carried (x >>= f) next := by
  intro s holds
  cases run : x carried s with
  | ok p s' =>
    obtain ⟨holds', post'⟩ := first.of_ok holds run
    rw [Action.bindWith_of_ok run]
    exact rest p.2 p.1 post' s' holds'
  | error f s' =>
    rw [Action.bindWith_of_error run]
    exact first.of_error holds run

theorem imp (h : Attains I carried x post) (weaker : ∀ carried' a, post carried' a →
    post' carried' a) : Attains I carried x post' :=
  intro (fun _ _ _ _ holds run => (h.of_ok holds run).imp_right (weaker _ _))
    fun _ _ _ holds run => h.of_error holds run

/-- What upholds the property leaves what is carried along as it is. -/
theorem lifted {act : Action α} (kept : Keeps (Upholds I) act)
    (h : ∀ {s a s'}, act s = .ok a s' → post carried a) : Attains I carried (liftM act) post := by
  refine intro ?_ ?_
  · intro s a carried' s' holds run
    obtain ⟨run', rfl⟩ := Action.ok_of_lift run
    exact ⟨kept.of_ok run' holds, h run'⟩
  · intro s f s' holds run
    cases run' : act s with
    | ok a u =>
      rw [Action.lift_of_ok run'] at run
      cases run
    | error e u =>
      rw [Action.lift_of_error run'] at run
      cases run
      exact kept.of_error run' holds

theorem lift {act : Action α} {f : α → StateT σ Action β} (kept : Keeps (Upholds I) act)
    (rest : ∀ a, Attains I carried (f a) next) : Attains I carried (liftM act >>= f) next := by
  have first : Attains I carried (liftM act) fun carried' _ => carried' = carried :=
    lifted kept fun _ => rfl
  exact first.bind fun _ a same => same ▸ rest a

/-- What is carried along is read. -/
theorem look {f : σ → StateT σ Action β} (rest : Attains I carried (f carried) next) :
    Attains I carried (MonadState.get >>= f) next := rest

/-- What is read of the session. -/
theorem read {f : Session → StateT σ Action β} (rest : ∀ s, I s → Attains I carried (f s) next) :
    Attains I carried (getThe Session >>= f) next := fun s holds => rest s holds s holds

/-- The session is changed. -/
theorem change {g : Session → Session} {f : Unit → StateT σ Action β} (step : ∀ s, I s → I (g s))
    (rest : Attains I carried (f ()) next) :
    Attains I carried ((modifyThe Session g : StateT σ Action Unit) >>= f) next :=
  fun s holds => rest (g s) (step s holds)

/-- The type of an argument is read, and then its cell. -/
theorem readType {q : Ref .argument} {f : Value → Session → StateT σ Action β}
    (kept : Keeps (Upholds I) (Arguments.type Deferred.supplier q))
    (rest : ∀ t s₀ s, Arguments.type Deferred.supplier q s₀ = .ok t s → I s₀ → I s →
      Attains I carried (f t s) next) :
    Attains I carried (do
      let t ← (liftM (Arguments.type Deferred.supplier q) : StateT σ Action Value)
      let s ← getThe Session
      f t s) next := by
  intro s₀ holds
  cases run : Arguments.type Deferred.supplier q s₀ with
  | ok t s =>
    have holds' := kept.of_ok run holds
    rw [Action.bindWith_of_ok (Action.lift_of_ok run)]
    exact rest t s₀ s run holds holds' s holds'
  | error e s =>
    rw [Action.bindWith_of_error (Action.lift_of_error run)]
    exact kept.of_error run holds

end Attains

end DirectiveSchema

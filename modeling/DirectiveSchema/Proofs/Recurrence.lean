import DirectiveSchema.Proofs.Accounts
import DirectiveSchema.Proofs.Indifference

/-!
Texts that are made again. To make the text of a datum is to resolve the types that it depends on,
but for those that are answered with null: they are asked for again whenever they are read. In a
later session, where no attribute and no element of what existed has changed, the same text is made
again, and nothing but the counted calls tells that it was.
-/
namespace DirectiveSchema

variable {α β : Type} {answer : List Value → Deferred → Action Value} {s s' u : Session}
  {supply : Supplier} {source t v : Value} {w : Wrapper} {r : Ref .wrapper} {q : Ref .argument}
  {W : Census}

/-! ### What is answered with null -/

/-- An action that never returns null. -/
def Action.NeverNull (x : Action Value) : Prop := ∀ s s', x s ≠ .ok .null s'

namespace Action.NeverNull

theorem pure (given : v.isNull = false) : NeverNull (Pure.pure v) := by
  rintro s s' ⟨⟩
  cases given

theorem throw (f : Fault) : NeverNull (MonadExcept.throw f) := by
  rintro s s' ⟨⟩

theorem bind {x : Action α} {f : α → Action Value} (rest : ∀ a, NeverNull (f a)) :
    NeverNull (x >>= f) := by
  intro s s' run
  obtain ⟨a, s₁, -, run⟩ := Action.ok_of_bind run
  exact rest a s₁ s' run

end Action.NeverNull

open Action (NeverNull)

theorem Types.neverNull_wrap (w : Wrapper) (source : Value) : NeverNull (wrap w source) := by
  unfold wrap
  split
  · exact .bind fun _ => .bind fun _ => .pure rfl
  · exact .bind fun _ => .pure rfl

namespace Expression

theorem neverNull_argument (name type default description : Option Value) :
    NeverNull (buildArgument name type default description) := by
  unfold buildArgument
  split
  · exact .bind fun _ => .pure rfl
  · exact .throw _

theorem neverNull_directive (route : Route) (name locations args description : Option Value) :
    NeverNull (buildDirective supply route name locations args description) := by
  unfold buildDirective
  split
  · exact .bind fun _ => .pure rfl
  · exact .throw _

theorem neverNull_scalar (name : Option Value) (serialize parse : Coercion)
    (description : Option Value) : NeverNull (buildScalar name serialize parse description) := by
  unfold buildScalar
  split
  · exact .bind fun _ => .pure rfl
  · exact .throw _

theorem lookup_ok {name : String} (h : lookup name s = .ok v s') : s.binding? name = some v := by
  rw [lookup, Action.get_bind] at h
  cases bound : s.binding? name with
  | some x =>
    rw [bound] at h
    cases h
    rfl
  | none =>
    rw [bound] at h
    cases h

end Expression

mutual

/-- An expression that gives null stands for it: what is built is not null. -/
theorem Expression.standing?_of_null {e : Expression} (h : e.eval supply s = .ok .null s') :
    e.standing? s.binding? = some .null := by
  cases e with
  | null => rfl
  | ref name =>
    rw [Expression.eval] at h
    exact Expression.lookup_ok h
  | type t =>
    rw [Expression.eval] at h
    exact TypeExpression.standing?_of_null (e := t) h
  | float x =>
    cases x <;> rw [Expression.eval] at h
    case nan => exact absurd h (NeverNull.bind (fun _ => .pure rfl) s s')
    case infinite => cases h
    case finite => cases h
    all_goals simp
  | bool | int | text | bytes | location =>
    rw [Expression.eval] at h
    cases h
  | foreign =>
    rw [Expression.eval] at h
    exact absurd h (NeverNull.bind (fun _ => .pure rfl) s s')
  | list | tuple =>
    rw [Expression.eval] at h
    exact absurd h (NeverNull.bind (fun _ => .bind fun _ => .pure rfl) s s')
  | set | dict =>
    rw [Expression.eval] at h
    exact absurd h (NeverNull.bind (fun _ => .bind fun _ => .bind fun _ => .pure rfl) s s')
  | argument =>
    rw [Expression.eval] at h
    exact absurd h (NeverNull.bind (fun _ => .bind fun _ => .bind fun _ => .bind fun _ =>
      Expression.neverNull_argument _ _ _ _) s s')
  | directive =>
    rw [Expression.eval] at h
    exact absurd h (NeverNull.bind (fun _ => .bind fun _ => .bind fun _ => .bind fun _ =>
      Expression.neverNull_directive _ _ _ _ _) s s')

theorem TypeExpression.standing?_of_null {e : TypeExpression} (h : e.eval supply s = .ok .null s') :
    e.standing? s.binding? = some .null := by
  cases e with
  | ref name =>
    rw [TypeExpression.eval] at h
    exact Expression.lookup_ok h
  | value v =>
    rw [TypeExpression.eval] at h
    exact Expression.standing?_of_null (e := v) h
  | wrap w t =>
    rw [TypeExpression.eval] at h
    exact absurd h (NeverNull.bind (fun _ => Types.neverNull_wrap w _) s s')
  | named | deferred =>
    rw [TypeExpression.eval] at h
    exact absurd h (NeverNull.bind (fun _ => .pure rfl) s s')
  | scalar =>
    rw [TypeExpression.eval] at h
    exact absurd h (NeverNull.bind (fun _ => .bind fun _ => .bind fun _ => .bind fun _ =>
      Expression.neverNull_scalar _ _ _ _) s s')
  | raising =>
    rw [TypeExpression.eval] at h
    cases h

end

theorem Deferred.given?_of_null {d : Deferred} (h : d.evaluate supply s = .ok .null s') :
    s.given? (.deferred d) = some .null :=
  TypeExpression.standing?_of_null (s := { s with calls := d.counter :: s.calls }) h

/-! ### Sessions in which null stays null -/

/-- A session is extended, and what is over a source that gives null stays unresolved. -/
structure Session.Persists (s s' : Session) : Prop where
  extension : s.Extends s'
  wrapper {r : Ref .wrapper} {source : Value} : r.index < s.wrappers.size →
    (s.wrapper r).source = some source → s.given? source = some .null →
      (s.wrapper r).resolved = none → (s'.wrapper r).resolved = none
  argument {q : Ref .argument} : q.index < s.arguments.size →
    s.given? (s.argument q).source = some .null →
      (s.argument q).resolved = none → (s'.argument q).resolved = none

namespace Session.Persists

theorem lasting : Lasting Session.Persists where
  refl s := ⟨.refl s, fun _ _ _ => id, fun _ _ => id⟩
  trans {a b c} h h' := by
    constructor
    · exact h.extension.trans h'.extension
    · intro r source live based given unresolved
      have live' := Nat.lt_of_lt_of_le live h.extension.wrappers.size
      have based' := (h.extension.wrapper live).source.trans based
      have given' := (h.extension.given? source).trans given
      exact h'.wrapper live' based' given' (h.wrapper live based given unresolved)
    · intro q live given unresolved
      have live' := Nat.lt_of_lt_of_le live h.extension.arguments.size
      have given' : b.given? (b.argument q).source = some .null := by
        rw [h.extension.given?, (h.extension.argument live).source, given]
      exact h'.argument live' given' (h.argument live given unresolved)

/-- A session that leaves types as they are resolves none. -/
theorem of_leaves (extension : s.Extends s') (leaves : s.LeavesTypes s') : s.Persists s' where
  extension := extension
  wrapper live _ _ unresolved :=
    (congrArg WrappingType.resolved (leaves.wrappers.cell live)).symm.trans unresolved
  argument live _ unresolved :=
    (congrArg Argument.resolved (leaves.arguments.cell live)).symm.trans unresolved

theorem note (n : Notice) : Keeps Session.Persists (Action.note n) := fun s =>
  of_leaves (Extends.growth.note n s) { LeavesTypes.refl s with }

theorem addition : Addition Session.Persists := LeavesTypes.enlarges lasting of_leaves

/-- A wrapper that is resolved by what its source gives, where null is not kept. -/
theorem putWrapper (h : s.Persists s') (unresolved : (s.wrapper r).resolved = none)
    (based : (s.wrapper r).source = some source) (may : MayResolve source t)
    (aimed : s.given? source = some .null → t = .null) :
    s.Persists (s'.putWrapper r { s'.wrapper r with resolved := Types.kept t }) where
  extension := h.extension.putWrapper unresolved based may
  wrapper {p x} live based' given unresolved' := by
    by_cases same : r.index = p.index
    · obtain rfl : r = p := Value.eq_iff_index.2 same
      cases based.symm.trans based'
      have cell := Arena.get_put_self s'.wrappers { s'.wrapper r with resolved := Types.kept t }
        (Nat.lt_of_lt_of_le live h.extension.wrappers.size)
      rw [show (s'.putWrapper r _).wrapper r = _ from cell, aimed given]
      rfl
    · have cell := Arena.get_put_of_ne s'.wrappers
        { s'.wrapper r with resolved := Types.kept t } same
      rw [show (s'.putWrapper r _).wrapper p = _ from cell]
      exact h.wrapper live based' given unresolved'
  argument := h.argument

theorem putArgument (h : s.Persists s') (unresolved : (s.argument q).resolved = none)
    (may : MayResolve (s.argument q).source t)
    (aimed : s.given? (s.argument q).source = some .null → t = .null) :
    s.Persists (s'.putArgument q { s'.argument q with resolved := Types.kept t }) where
  extension := h.extension.putArgument unresolved may
  wrapper := h.wrapper
  argument {p} live given unresolved' := by
    by_cases same : q.index = p.index
    · obtain rfl : q = p := Value.eq_iff_index.2 same
      have cell := Arena.get_put_self s'.arguments { s'.argument q with resolved := Types.kept t }
        (Nat.lt_of_lt_of_le live h.extension.arguments.size)
      rw [show (s'.putArgument q _).argument q = _ from cell, aimed given]
      rfl
    · have cell := Arena.get_put_of_ne s'.arguments
        { s'.argument q with resolved := Types.kept t } same
      rw [show (s'.putArgument q _).argument p = _ from cell]
      exact h.argument live given unresolved'

/-- Whatever calls were counted. -/
theorem count (h : s.Persists s') (calls : List String) : s.Persists { s' with calls } :=
  ⟨{ h.extension with }, h.wrapper, h.argument⟩

end Session.Persists

/-- Answers that give what a deferred type stands for, and null only if it stands for null. -/
structure Candid (answer : List Value → Deferred → Action Value) : Prop
    extends Census.Answers answer where
  persists (ws : List Value) (d : Deferred) : Keeps Session.Persists (answer ws d)
  given {ws : List Value} {d : Deferred} {s : Session} {t : Value} :
    s.given? (.deferred d) = some t →
      answer ws d s = .ok t { s with calls := d.counter :: s.calls }
  null {ws : List Value} {d : Deferred} {s s' : Session} :
    answer ws d s = .ok .null s' → s.given? (.deferred d) = some .null

namespace Candid

/-- A source gives null exactly if that is what it is asked for. -/
theorem demand_null (h : Candid answer) {ws : List Value}
    (run : Types.demand ⟨ws, answer⟩ source s = .ok t s') :
    s.given? source = some .null ↔ t = .null := by
  cases source with
  | deferred d =>
    constructor
    · intro given
      cases (h.given given).symm.trans run
      rfl
    · rintro rfl
      exact h.null run
  | _ =>
    cases run
    exact Option.some_inj

theorem observed (h : Candid answer) : Observed answer Session.Persists where
  toLasting := Session.Persists.lasting
  wrapped _ w r := Session.Persists.lasting.wrappedBy
    (fun kept unresolved based answered => kept.putWrapper unresolved based
      (mayResolve_of_demand answered) (h.demand_null answered).1) h.persists w r
  type _ q := Session.Persists.lasting.typeBy
    (fun kept unresolved answered => kept.putArgument unresolved
      (mayResolve_of_demand answered) (h.demand_null answered).1) h.persists q
  note := Session.Persists.note

theorem evaluate (h : Candid answer) (ws : List Value) (d : Deferred) :
    Keeps Session.Persists (d.evaluate ⟨ws, answer⟩) :=
  Session.Persists.addition.evaluate ws d fun _ => h.observed.toObserving

/-- The induction is on the calls inside: a call evaluates a body whose types are resolved by
answers with fewer calls inside. -/
theorem callWithin (n : Nat) : Candid (Deferred.callWithin n) := by
  induction n with
  | zero =>
    refine ⟨Census.answers_callWithin 0, fun ws d => ?_,
      fun given => Deferred.callWithin_of_given? given 0 _, fun run => ?_⟩
    · unfold Deferred.callWithin
      split
      · next standing =>
        refine Session.Persists.addition.evaluate ws d fun reads => ?_
        rw [TypeExpression.readsTypes_of_isStanding standing] at reads
        cases reads
      · exact Session.Persists.lasting.throw _
    · unfold Deferred.callWithin at run
      split at run
      · exact Deferred.given?_of_null run
      · cases run
  | succ n ih =>
    exact ⟨Census.answers_callWithin (n + 1), ih.evaluate,
      fun given => Deferred.callWithin_of_given? given (n + 1) _, Deferred.given?_of_null⟩

theorem supplier : Candid Deferred.supplier.answer where
  toAnswers := Census.answers
  persists ws d := Session.Persists.lasting.bounded fun n => (callWithin n).persists ws d
  given given := (callWithin _).given given
  null run := (callWithin _).null run

end Candid

/-! ### Actions that recur -/

/-- What one action returned is returned by the other in every session that persists, where at most
calls are counted for it. -/
def Census.Recurs (W : Census) (x y : Action α) : Prop :=
  ∀ s a s', s.Fits W → x s = .ok a s' → ∀ u, s'.Persists u → ∃ calls, y u = .ok a { u with calls }

namespace Census.Recurs

variable {x y : Action α} {f g : α → Action β} {post : Census → α → Prop}

theorem pure (a : α) : W.Recurs (Pure.pure a) (Pure.pure a) := by
  rintro s _ _ - ⟨⟩ u -
  exact ⟨u.calls, rfl⟩

theorem throw (e : Fault) : W.Recurs (MonadExcept.throw e : Action α) y := by
  rintro s _ _ - ⟨⟩

theorem bind (first : W.Recurs x y) (admitted : W.Admits true x post)
    (kept : ∀ a, Keeps Session.Persists (f a))
    (rest : ∀ W', W.Extends true W' → ∀ a, post W' a → W'.Recurs (f a) (g a)) :
    W.Recurs (x >>= f) (y >>= g) := by
  intro s b s' fits run u persists
  obtain ⟨a, s₁, run₁, run₂⟩ := Action.ok_of_bind run
  obtain ⟨W', more, fits', result⟩ := admitted s fits
  rw [Action.after_of_ok run₁] at fits'
  have persists₁ := Session.Persists.lasting.trans ((kept a).of_ok run₂) persists
  obtain ⟨calls, again₁⟩ := first s a s₁ fits run₁ u persists₁
  have recurs := rest W' more a (result a (Action.result?_of_ok run₁))
  obtain ⟨calls', again₂⟩ := recurs s₁ b s' fits' run₂ _ (persists.count calls)
  exact ⟨calls', (Action.bind_of_ok again₁).trans again₂⟩

/-- What is read of the session lets the rest recur. -/
theorem look {f g : Session → Action β} (kept : ∀ s, Keeps Session.Persists (f s))
    (rest : ∀ s u, s.Fits W → s.Persists u → W.Recurs (f s) (g u)) :
    W.Recurs (MonadState.get >>= f) (MonadState.get >>= g) := by
  intro s a s' fits run u persists
  have persists₁ := Session.Persists.lasting.trans ((kept s).of_ok run) persists
  exact rest s u fits persists₁ s a s' fits run u persists

theorem map {f : α → β} (first : W.Recurs x y) :
    W.Recurs (x >>= fun a => Pure.pure (f a)) (y >>= fun a => Pure.pure (f a)) := by
  intro s b s' fits run u persists
  obtain ⟨a, s₁, run₁, run₂⟩ := Action.ok_of_bind run
  cases run₂
  obtain ⟨calls, again⟩ := first s a s' fits run₁ u persists
  exact ⟨calls, Action.bind_of_ok again⟩

theorem mapM {γ : Type} {f g : γ → Action α} {cs : List γ}
    (h : ∀ c ∈ cs, ∀ W', W.Extends true W' → W'.Recurs (f c) (g c))
    (admitted : ∀ (W' : Census) c, W'.Admits true (f c) fun _ _ => True)
    (kept : ∀ c, Keeps Session.Persists (f c)) : W.Recurs (cs.mapM f) (cs.mapM g) := by
  induction cs generalizing W with
  | nil => exact pure []
  | cons c cs ih =>
    rw [List.mapM_cons, List.mapM_cons]
    have first := h c List.mem_cons_self W (.refl W)
    refine first.bind (admitted W c) (fun a => ?_) fun W' more a _ => ?_
    · refine Session.Persists.lasting.bind (Session.Persists.lasting.mapM kept cs) fun _ => ?_
      exact Session.Persists.lasting.pure _
    · have others := ih fun d hd W'' more' =>
        h d (List.mem_cons_of_mem c hd) W'' (more.trans more')
      have all : W'.Admits true (cs.mapM f) fun _ _ => True :=
        .imp (.mapM (fun _ => id) fun d _ W'' _ => admitted W'' d) fun _ _ _ _ => trivial
      exact others.bind all (fun _ => Session.Persists.lasting.pure _) fun _ _ as _ => pure _

/-- A later session leaves at least as much room. -/
theorem bounded {outside : Nat} {f g : Nat → Action α}
    (kept : ∀ n, Keeps Session.Persists (f n)) (rest : ∀ n m, n ≤ m → W.Recurs (f n) (g m)) :
    W.Recurs (Action.bounded outside f) (Action.bounded outside g) := by
  refine look (fun s => kept _) fun s u _ persists => rest _ _ ?_
  have room := persists.extension.reach_le
  omega

theorem boundedPairs {outside : Nat} {f g : Nat → Action α}
    (kept : ∀ n, Keeps Session.Persists (f n)) (rest : ∀ n m, n ≤ m → W.Recurs (f n) (g m)) :
    W.Recurs (Action.boundedPairs outside f) (Action.boundedPairs outside g) :=
  bounded (fun n => kept (n * n)) fun _ _ le => rest _ _ (Nat.mul_le_mul le le)

end Census.Recurs

/-! ### Types -/

namespace Session

/-- To put back what was resolved changes nothing. -/
theorem putWrapper_resolved (r : Ref .wrapper) (s : Session) :
    s.putWrapper r { s.wrapper r with resolved := (s.wrapper r).resolved } = s := by
  rw [putWrapper, wrapper, Arena.put_get]

theorem putArgument_resolved (q : Ref .argument) (s : Session) :
    s.putArgument q { s.argument q with resolved := (s.argument q).resolved } = s := by
  rw [putArgument, argument, Arena.put_get]

end Session

namespace Candid

variable {answer' : List Value → Deferred → Action Value}

theorem demand_of_given (h : Candid answer) (ws : List Value) (given : s.given? source = some t) :
    ∃ calls, Types.demand ⟨ws, answer⟩ source s = .ok t { s with calls } := by
  cases source with
  | deferred d => exact ⟨_, h.given given⟩
  | _ =>
    cases given
    exact ⟨s.calls, rfl⟩

/-- What a source gave is still given in a later session, or kept there if it was not null. -/
theorem demand_again (h : Candid answer) {ws : List Value}
    (run : Types.demand ⟨ws, answer⟩ source s = .ok t s') :
    s.Persists s' ∧ (t.isNull = false ∧ Types.kept t = some t ∨
      t = .null ∧ s.given? source = some .null) := by
  refine ⟨(Session.Persists.lasting.demand h.persists ws source).of_ok run, ?_⟩
  cases null : t.isNull with
  | false => exact .inl ⟨rfl, Types.kept_of_not_isNull null⟩
  | true =>
    have same : t = .null := by cases t <;> first | rfl | cases null
    exact .inr ⟨same, (h.demand_null run).2 same⟩

/-- A type that was not null is kept. One that was null is asked for again. -/
theorem wrapped_again (h : Candid answer) (h' : Candid answer') {ws : List Value}
    (ws' : List Value) (live : r.index < s.wrappers.size)
    (run : Types.wrapped ⟨ws, answer⟩ w r s = .ok t s') (persists : s'.Persists u) :
    ∃ calls, Types.wrapped ⟨ws', answer'⟩ w r u = .ok t { u with calls } := by
  cases known : (s.wrapper r).resolved with
  | some t' =>
    rw [Types.wrapped_of_resolved known] at run
    cases run
    have later := (persists.extension.wrapper live).resolved known
    exact ⟨u.calls, Types.wrapped_of_resolved later⟩
  | none =>
    cases based : (s.wrapper r).source with
    | none =>
      rw [Types.wrapped_of_blank known based] at run
      cases run
    | some source =>
      have kept := (h.observed.wrapped ws w r).of_ok run
      have extension := kept.extension
      have live' := Nat.lt_of_lt_of_le live extension.wrappers.size
      have based' := (extension.wrapper live).source.trans based
      have settles := persists.extension.wrapper live'
      cases demanded : Types.demand ⟨ws, answer⟩ source s with
      | error f s₁ =>
        rw [Types.wrapped_of_fault known based demanded] at run
        cases run
      | ok t' s₁ =>
        rw [Types.wrapped_of_demand known based demanded] at run
        cases run
        obtain ⟨kept₁, ⟨-, given⟩ | ⟨rfl, given⟩⟩ := h.demand_again demanded
        · have live₁ := Nat.lt_of_lt_of_le live kept₁.extension.wrappers.size
          have cell := Arena.get_put_self s₁.wrappers
            { s₁.wrapper r with resolved := Types.kept t } live₁
          have now : (u.wrapper r).resolved = some t :=
            settles.resolved ((congrArg WrappingType.resolved cell).trans given)
          exact ⟨u.calls, Types.wrapped_of_resolved now⟩
        · have given' := (extension.given? source).trans given
          have unresolved := persists.wrapper live' based' given' (kept.wrapper live based given known)
          have given'' := (persists.extension.given? source).trans given'
          obtain ⟨calls, again⟩ := h'.demand_of_given ws' given''
          refine ⟨calls, ?_⟩
          rw [Types.wrapped_of_demand unresolved (settles.source.trans based') again]
          have same := Session.putWrapper_resolved r { u with calls }
          rw [show ((({ u with calls } : Session)).wrapper r).resolved = none from unresolved] at same
          exact congrArg _ same

theorem type_again (h : Candid answer) (h' : Candid answer') {ws : List Value}
    (ws' : List Value) (live : q.index < s.arguments.size)
    (run : Arguments.type ⟨ws, answer⟩ q s = .ok t s') (persists : s'.Persists u) :
    ∃ calls, Arguments.type ⟨ws', answer'⟩ q u = .ok t { u with calls } := by
  cases known : (s.argument q).resolved with
  | some t' =>
    rw [Arguments.type_of_resolved known] at run
    cases run
    have later := (persists.extension.argument live).resolved known
    exact ⟨u.calls, Arguments.type_of_resolved later⟩
  | none =>
    have kept := (h.observed.type ws q).of_ok run
    have extension := kept.extension
    have live' := Nat.lt_of_lt_of_le live extension.arguments.size
    have source := (extension.argument live).source
    have settles := persists.extension.argument live'
    cases demanded : Types.demand ⟨ws, answer⟩ (s.argument q).source s with
    | error f s₁ =>
      rw [Arguments.type_of_fault known demanded] at run
      cases run
    | ok t' s₁ =>
      rw [Arguments.type_of_demand known demanded] at run
      cases run
      obtain ⟨kept₁, ⟨-, given⟩ | ⟨rfl, given⟩⟩ := h.demand_again demanded
      · have live₁ := Nat.lt_of_lt_of_le live kept₁.extension.arguments.size
        have cell := Arena.get_put_self s₁.arguments
          { s₁.argument q with resolved := Types.kept t } live₁
        have now : (u.argument q).resolved = some t :=
          settles.resolved ((congrArg Argument.resolved cell).trans given)
        exact ⟨u.calls, Arguments.type_of_resolved now⟩
      · have given' := (extension.given? _).trans given
        rw [← source] at given'
        have unresolved := persists.argument live' given' (kept.argument live given known)
        have given'' := (persists.extension.given? _).trans given'
        rw [← settles.source] at given''
        obtain ⟨calls, again⟩ := h'.demand_of_given ws' given''
        refine ⟨calls, ?_⟩
        rw [Arguments.type_of_demand unresolved again]
        have same := Session.putArgument_resolved q { u with calls }
        rw [show ((({ u with calls } : Session)).argument q).resolved = none from unresolved] at same
        exact congrArg _ same

theorem recurs_wrapped (h : Candid answer) (h' : Candid answer') (ws ws' : List Value)
    (w : Wrapper) (live : r.index < W.count .wrapper) :
    W.Recurs (Types.wrapped ⟨ws, answer⟩ w r) (Types.wrapped ⟨ws', answer'⟩ w r) :=
  fun _ _ _ fits run _ persists =>
    h.wrapped_again h' ws' (Nat.lt_of_lt_of_eq live (fits.count .wrapper).symm) run persists

theorem recurs_type (h : Candid answer) (h' : Candid answer') (ws ws' : List Value)
    (live : q.index < W.count .argument) :
    W.Recurs (Arguments.type ⟨ws, answer⟩ q) (Arguments.type ⟨ws', answer'⟩ q) :=
  fun _ _ _ fits run _ persists =>
    h.type_again h' ws' (Nat.lt_of_lt_of_eq live (fits.count .argument).symm) run persists

end Candid

/-! ### Texts -/

theorem Value.Belongs.counted {k : CellKind} {i : Nat} (h : v.Belongs W)
    (cell : v.cell? = some (k, i)) : i < W.count k := by
  have leaf : v.leaves = [v] := by cases v <;> first | rfl | cases cell
  exact (h v (by simp [leaf])).counted cell

theorem Value.Belongs.row {vs : List Value} (h : v.Belongs W) (row : v.row? = some vs) :
    W.Includes vs := by
  cases v with
  | tuple =>
    cases row
    exact Value.belongs_tuple.1 h
  | config =>
    cases row
    obtain ⟨h₁, h₂, h₃, h₄⟩ := Value.belongs_config.1 h
    simp [Census.Includes, h₁, h₂, h₃, h₄]
  | _ => cases row

namespace Candid

variable {answer' : List Value → Deferred → Action Value}

theorem recurs_integer (n : Int) : W.Recurs (Display.integer n) (Display.integer n) := by
  simp only [Display.integer]
  split
  · exact .throw _
  · exact .pure _

theorem recurs_nameLabel (v : Value) : W.Recurs (Display.nameLabel v) (Display.nameLabel v) := by
  unfold Display.nameLabel
  split
  · exact .pure _
  · exact .throw _

theorem recurs_present (className key : String) (o : Option Value) :
    W.Recurs (Arguments.present className key o) (Arguments.present className key o) := by
  cases o with
  | some v => exact .pure v
  | none => exact .throw _

theorem recurs_enter {ws : List Value} {mark : String} {f g : Supplier → Action String}
    (h : W.Recurs (f ⟨v :: ws, answer⟩) (g ⟨v :: ws, answer'⟩)) :
    W.Recurs (Display.enter ⟨ws, answer⟩ v mark f) (Display.enter ⟨ws, answer'⟩ v mark g) := by
  unfold Display.enter
  split
  · next writing =>
    have writing' : (⟨ws, answer'⟩ : Supplier).isWriting v = true := writing
    rw [if_pos writing']
    exact .pure mark
  · next writing =>
    have writing' : ¬(⟨ws, answer'⟩ : Supplier).isWriting v = true := writing
    rw [if_neg writing']
    exact h

theorem recurs_fill {f g : Value → Action String} (belongs : v.Belongs W)
    (h : ∀ {x : Value}, x.Belongs W → W.Recurs (f x) (g x)) :
    W.Recurs (Display.fill f v) (Display.fill g v) := by
  unfold Display.fill
  split
  · exact h belongs
  · exact .throw _
  · next row => exact h (belongs.row row _ List.mem_cons_self)
  · intro s a s' _ run
    obtain ⟨_, _, -, run⟩ := Action.ok_of_bind run
    cases run

/-- Names of arguments are read where they are. -/
theorem recurs_name (live : q.index < W.count .argument) :
    W.Recurs (Arguments.name q) (Arguments.name q) := by
  refine .look (fun _ => Session.Persists.lasting.closed.present _ _ _) fun s u fits persists => ?_
  have live : q.index < s.arguments.size := Nat.lt_of_lt_of_eq live (fits.count .argument).symm
  rw [(persists.extension.argument live).name]
  exact recurs_present _ _ _

section

variable (h : Candid answer) (h' : Candid answer') {n m : Nat}
include h

theorem keeps_write (n : Nat) (ws : List Value) (form : Display.Form) (v : Value) :
    Keeps Session.Persists (Display.write n ⟨ws, answer⟩ form v) := h.observed.write n ws form v

theorem admits_write (W : Census) (n : Nat) (ws : List Value) (form : Display.Form) (v : Value) :
    W.Admits true (Display.write n ⟨ws, answer⟩ form v) fun _ _ => True :=
  h.toAnswers.admits fun observed => observed.write n ws form v

include h'

/-- A text that was made is made again with as much room. The census tells that what is met while it
is made exists. -/
theorem recurs_write (le : n ≤ m) (ws : List Value) (form : Display.Form) (belongs : v.Belongs W) :
    W.Recurs (Display.write n ⟨ws, answer⟩ form v) (Display.write m ⟨ws, answer'⟩ form v) := by
  induction n generalizing m ws form v W with
  | zero => exact .throw _
  | succ n ih =>
    obtain ⟨m, rfl⟩ : ∃ k, m = k + 1 := ⟨m - 1, by omega⟩
    have le : n ≤ m := Nat.le_of_succ_le_succ le
    have lasting := Session.Persists.lasting
    have written (ws : List Value) (form : Display.Form) {W : Census} {v : Value}
        (belongs : v.Belongs W) := ih le ws form belongs
    have all (ws : List Value) (form : Display.Form) {W : Census} {vs : List Value}
        (belong : W.Includes vs) : W.Recurs (vs.mapM (Display.write n ⟨ws, answer⟩ form))
          (vs.mapM (Display.write m ⟨ws, answer'⟩ form)) :=
      .mapM (fun v hv W' more => written ws form ((belong v hv).mono more))
        (fun W' v => h.admits_write W' n ws form v) fun v => h.keeps_write n ws form v
    cases v with
    | null | unnamed | bool | float | text | bytes | location | foreign | deferred =>
      exact .pure _
    | int i => exact recurs_integer i
    | tuple tag items =>
      simp only [Display.write]
      exact recurs_enter (.map (all _ .literal (Value.belongs_tuple.1 belongs)))
    | list r =>
      simp only [Display.write]
      refine recurs_enter (.look (fun s => ?_) fun s u fits persists => ?_)
      · exact lasting.bind (lasting.mapM (h.keeps_write n _ .literal) _) fun _ => lasting.pure _
      · have live := Nat.lt_of_lt_of_eq (belongs.counted rfl) (fits.count .list).symm
        have same : s.list r = u.list r := persists.extension.lists.cell live
        rw [← same]
        exact .map (all _ .literal (fits.list r))
    | set r =>
      simp only [Display.write]
      refine recurs_enter (.look (fun s => ?_) fun s u fits persists => ?_)
      · exact lasting.bind (lasting.mapM (fun _ => h.keeps_write n _ .literal _) _) fun _ =>
          lasting.pure _
      · have live := Nat.lt_of_lt_of_eq (belongs.counted rfl) (fits.count .set).symm
        have same : s.set r = u.set r := persists.extension.sets.cell live
        rw [← same]
        refine .map (.mapM (fun m hm W' more => ?_) (fun W' m => ?_) fun m => ?_)
        · exact written _ .literal ((fits.set r m hm).mono more)
        · exact h.admits_write W' n _ .literal m.value
        · exact h.keeps_write n _ .literal m.value
    | dict r =>
      simp only [Display.write]
      refine recurs_enter (.look (fun s => ?_) fun s u fits persists => ?_)
      · refine lasting.bind (lasting.mapM (fun _ => ?_) _) fun _ => lasting.pure _
        exact lasting.bind (h.keeps_write n _ .literal _) fun _ =>
          lasting.bind (h.keeps_write n _ .literal _) fun _ => lasting.pure _
      · have live := Nat.lt_of_lt_of_eq (belongs.counted rfl) (fits.count .dict).symm
        have same : s.dict r = u.dict r := persists.extension.dicts.cell live
        rw [← same]
        refine .map (.mapM (fun e he W' more => ?_) (fun W' e => ?_) fun e => ?_)
        · obtain ⟨key, value⟩ := fits.dict r e he
          refine (written _ .literal (key.mono more)).bind (h.admits_write W' n _ .literal e.key)
            (fun _ => ?_) fun W'' more' _ _ => ?_
          · exact lasting.bind (h.keeps_write n _ .literal _) fun _ => lasting.pure _
          · exact .map (written _ .literal (value.mono (more.trans more')))
        · exact (h.admits_write W' n _ .literal e.key).bind fun W'' _ _ _ =>
            (h.admits_write W'' n _ .literal e.value).bind fun _ _ _ _ => .pure trivial
        · exact lasting.bind (h.keeps_write n _ .literal _) fun _ =>
            lasting.bind (h.keeps_write n _ .literal _) fun _ => lasting.pure _
    | config tag name locations args description =>
      obtain ⟨h₁, h₂, h₃, h₄⟩ := Value.belongs_config.1 belongs
      have kept := h.keeps_write n ws .literal
      have admits := fun W => h.admits_write W n ws .literal
      simp only [Display.write]
      refine (written ws .literal h₁).bind (admits W name) (fun _ => ?_) fun W₁ more₁ _ _ => ?_
      · exact lasting.bind (kept _) fun _ => lasting.bind (kept _) fun _ =>
          lasting.bind (kept _) fun _ => lasting.pure _
      refine (written ws .literal (h₂.mono more₁)).bind (admits W₁ locations) (fun _ => ?_)
        fun W₂ more₂ _ _ => ?_
      · exact lasting.bind (kept _) fun _ => lasting.bind (kept _) fun _ => lasting.pure _
      have more₂ := more₁.trans more₂
      refine (written ws .literal (h₃.mono more₂)).bind (admits W₂ args) (fun _ => ?_)
        fun W₃ more₃ _ _ => ?_
      · exact lasting.bind (kept _) fun _ => lasting.pure _
      exact .map (written ws .literal (h₄.mono (more₂.trans more₃)))
    | named r =>
      simp only [Display.write]
      refine .look (fun s => ?_) fun s u fits persists => ?_
      · cases form with
        | label => exact h.observed.nameLabel _
        | literal => exact lasting.bind (h.keeps_write n ws .label _) fun _ => lasting.pure _
      · have live := Nat.lt_of_lt_of_eq (belongs.counted rfl) (fits.count .named).symm
        have same : s.namedType r = u.namedType r := persists.extension.namedTypes.cell live
        rw [← same]
        cases form with
        | label => exact recurs_nameLabel _
        | literal =>
          have held := (NamedType.includes_contents.1 (fits.namedType r)).1
          exact .map (written ws .label (Census.Admits.belongs_typeName held))
    | scalar r =>
      simp only [Display.write]
      refine .look (fun s => ?_) fun s u fits persists => ?_
      · cases form with
        | label => exact h.observed.nameLabel _
        | literal => exact lasting.bind (h.keeps_write n ws .label _) fun _ => lasting.pure _
      · have live := Nat.lt_of_lt_of_eq (belongs.counted rfl) (fits.count .scalar).symm
        have same : s.scalar r = u.scalar r := persists.extension.scalars.cell live
        rw [← same]
        cases form with
        | label => exact recurs_nameLabel _
        | literal =>
          obtain ⟨⟨⟨⟨held, -⟩, -⟩, -⟩, -⟩ := ScalarType.includes_holdings.1 (fits.scalar r)
          exact .map (written ws .label (Census.Admits.belongs_typeName held))
    | wrapper w r =>
      simp only [Display.write]
      have wrapped := h.recurs_wrapped h' ws ws w (belongs.counted (i := r.index) rfl)
      refine wrapped.bind (h.toAnswers.wrapped ws w r) (fun t => ?_) fun W' _ t held => ?_
      · cases form <;> cases w
        all_goals first
          | exact lasting.bind (h.observed.fill (h.keeps_write n ws .label) t) fun _ =>
              lasting.pure _
          | exact lasting.bind (h.keeps_write n ws .literal t) fun _ => lasting.pure _
      · have filled := recurs_fill held fun hx => written ws .label hx
        cases form <;> cases w
        all_goals first
          | exact .map (written ws .literal held)
          | exact .map filled
    | argument q =>
      have live := belongs.counted (i := q.index) rfl
      have named : W.Yields true (Arguments.name q) := .bindGet fun s fits =>
        .present (Argument.includes_contents.1 (fits.argument q)).1.1
      have rest (name t : Value) : Keeps Session.Persists (do
          let name ← Display.write n ⟨ws, answer⟩ .label name
          let t ← Display.write n ⟨ws, answer⟩ .label t
          return "Argument(" ++ name ++ ": " ++ t ++
            (if form = .literal then " at <id>" else "") ++ ")") :=
        lasting.bind (h.keeps_write n ws .label _) fun _ =>
          lasting.bind (h.keeps_write n ws .label _) fun _ => lasting.pure _
      simp only [Display.write]
      refine (recurs_name live).bind named (fun name => ?_) fun W₁ more₁ name belongs₁ => ?_
      · exact lasting.bind (h.observed.type ws q) (rest name)
      have typed := h.recurs_type h' ws ws (Nat.lt_of_lt_of_le live (more₁.count .argument))
      refine typed.bind (h.toAnswers.type ws q) (rest name) fun W₂ more₂ t belongs₂ => ?_
      refine (written ws .label (belongs₁.mono more₂)).bind (h.admits_write W₂ n ws .label name)
        (fun _ => ?_) fun W₃ more₃ _ _ => ?_
      · exact lasting.bind (h.keeps_write n ws .label _) fun _ => lasting.pure _
      exact .map (written ws .label (belongs₂.mono more₃))
    | directive r =>
      simp only [Display.write]
      refine .look (fun s => ?_) fun s u fits persists => ?_
      · cases form with
        | label => exact lasting.bind (h.keeps_write n ws .label _) fun _ => lasting.pure _
        | literal => exact h.observed.directiveLiteral (h.keeps_write n ws .label) _
      · have live := Nat.lt_of_lt_of_eq (belongs.counted rfl) (fits.count .directive).symm
        have same : s.directive r = u.directive r := persists.extension.directives.cell live
        rw [← same]
        obtain ⟨name, -, locations, -⟩ := Census.Admits.directive fits (r := r) rfl
        cases form with
        | label => exact .map (written ws .label name)
        | literal =>
          refine (written ws .label name).bind (h.admits_write W n ws .label _) (fun _ => ?_)
            fun W' more _ _ => ?_
          · exact lasting.bind (lasting.mapM (h.keeps_write n ws .label) _) fun _ =>
              lasting.pure _
          · exact .map (all ws .label fun x hx => (Value.belongs_tuple.1 locations x hx).mono more)

theorem recurs_label (ws : List Value) (belongs : v.Belongs W) :
    W.Recurs (Display.label ⟨ws, answer⟩ v) (Display.label ⟨ws, answer'⟩ v) :=
  .boundedPairs (fun n => h.keeps_write n ws .label v) fun _ _ le =>
    h.recurs_write h' le ws .label belongs

theorem recurs_labels (ws : List Value) {vs : List Value} (belong : W.Includes vs) :
    W.Recurs (vs.mapM (Display.label ⟨ws, answer⟩)) (vs.mapM (Display.label ⟨ws, answer'⟩)) :=
  .mapM (fun v hv _ more => h.recurs_label h' ws ((belong v hv).mono more))
    (fun _ v => h.toAnswers.admits fun observed => observed.label ws v)
    fun v => h.observed.label ws v

end

end Candid

end DirectiveSchema

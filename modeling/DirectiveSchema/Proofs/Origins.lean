import DirectiveSchema.Proofs.Resolution
import DirectiveSchema.Proofs.Shape

/-!
Where types come from. What a type expression gives can be told before it is evaluated, as far as
wrapping types go: what is bound to a name, a new wrapper over what another expression gives, or a
reference, which evaluates one when it is called. A wrapper that was resolved since is resolved to
what its source is, or to what the body of its source gave.
-/
namespace DirectiveSchema

variable {α β : Type} {answer : List Value → Deferred → Action Value} {supply : Supplier}
  {b b' s s' u : Session} {t v x : Value} {w : Wrapper} {r : Ref .wrapper}

/-- What a type expression gives: what is bound to a name, a wrapper over what another one gives, a
reference to one, or something that is no wrapper and no reference. -/
inductive Origin where
  | bound (name : String)
  | wrapped (w : Wrapper) (e : TypeExpression)
  | reference (e : TypeExpression)
  | made

mutual

def Expression.origin : Expression → Origin
  | .ref name => .bound name
  | .type t => t.origin
  | _ => .made

def TypeExpression.origin : TypeExpression → Origin
  | .ref name => .bound name
  | .wrap w t => .wrapped w t
  | .value v => v.origin
  | .deferred _ t => .reference t
  | _ => .made

end

def Value.isDeferred : Value → Bool
  | .deferred _ => true
  | _ => false

/-- Whether a datum is neither a wrapping type nor a reference. -/
def Value.isFinal (v : Value) : Bool := !v.isWrapper && !v.isDeferred

/-- A datum that was given, since a base session, by an expression of this origin. A wrapper that
was built for it is resolved, if it is, to its source or to what the body of its source gave. -/
inductive Session.Gives (b s : Session) : Origin → Value → Prop where
  | bound {name : String} {v : Value} : b.binding? name = some v → Gives b s (.bound name) v
  | wrapped {w : Wrapper} {e : TypeExpression} {r : Ref .wrapper} {source : Value} :
      b.wrappers.size ≤ r.index → r.index < s.wrappers.size →
        (s.wrapper r).source = some source → ¬(w = .nonNull ∧ source.isNonNull = true) →
          Gives b s e.origin source →
            (∀ t, (s.wrapper r).resolved = some t → MayResolve source t) →
              (∀ d t, source = .deferred d → (s.wrapper r).resolved = some t →
                Gives b s d.body.origin t) →
                  Gives b s (.wrapped w e) (.wrapper w r)
  | reference {d : Deferred} : Gives b s (.reference d.body) (.deferred d)
  | made {v : Value} : v.isFinal = true → Gives b s .made v

/-- A session is extended, and what was resolved over a reference is what its body gave. -/
structure Session.Traces (s s' : Session) : Prop where
  extension : s.Extends s'
  told {r : Ref .wrapper} {d : Deferred} {t : Value} : r.index < s.wrappers.size →
    (s.wrapper r).source = some (.deferred d) → (s'.wrapper r).resolved = some t →
      (s.wrapper r).resolved = some t ∨ s.Gives s' d.body.origin t

namespace Session

namespace Gives

variable {o : Origin}

/-- Only the wrappers that were built since matter. -/
theorem congr (h : b.Gives s o v) (size : s.wrappers.size ≤ u.wrappers.size)
    (same : ∀ r : Ref .wrapper, b.wrappers.size ≤ r.index → r.index < s.wrappers.size →
      u.wrapper r = s.wrapper r) : b.Gives u o v := by
  induction h with
  | bound known => exact .bound known
  | wrapped new live based nullable _ may _ ih ih' =>
    have same := same _ new live
    refine .wrapped new (Nat.lt_of_lt_of_le live size) (same ▸ based) nullable ih (same ▸ may) ?_
    rw [same]
    exact ih'
  | reference => exact .reference
  | made final => exact .made final

/-- What was given since a session was given since any before it. -/
theorem before (h : b'.Gives s o v) (earlier : b.wrappers.size ≤ b'.wrappers.size)
    (bindings : b'.bindings = b.bindings) : b.Gives s o v := by
  induction h with
  | bound known =>
    rw [binding?, bindings] at known
    exact .bound known
  | wrapped new live based nullable _ may _ ih ih' =>
    exact .wrapped (Nat.le_trans earlier new) live based nullable ih may ih'
  | reference => exact .reference
  | made final => exact .made final

theorem extends_before (h : s.Gives u o v) (extension : b.Extends s) : b.Gives u o v :=
  h.before extension.wrappers.size extension.bindings

/-- What was given remains so while types are resolved. -/
theorem later (h : b.Gives s o v) (extension : b.Extends s) (traces : s.Traces u) :
    b.Gives u o v := by
  induction h with
  | bound known => exact .bound known
  | wrapped new live based nullable _ may _ ih ih' =>
    have settles := traces.extension.wrapper live
    refine .wrapped new (Nat.lt_of_lt_of_le live traces.extension.wrappers.size)
      (settles.source.trans based) nullable ih (fun t resolved => ?_) fun d t same resolved => ?_
    · rcases settles.honest resolved with known | ⟨source, based', may'⟩
      · exact may t known
      · cases based.symm.trans based'
        exact may'
    · subst same
      rcases traces.told live based resolved with known | given
      · exact ih' d t rfl known
      · exact given.extends_before extension
  | reference => exact .reference
  | made final => exact .made final

end Gives

namespace Traces

theorem refl (s : Session) : s.Traces s := ⟨.refl s, fun _ _ => .inl⟩

theorem lasting : Lasting Traces where
  refl := refl
  trans {a b c} h h' := by
    refine ⟨h.extension.trans h'.extension, fun {r d t} live based resolved => ?_⟩
    have live' := Nat.lt_of_lt_of_le live h.extension.wrappers.size
    have based' := (h.extension.wrapper live).source.trans based
    rcases h'.told live' based' resolved with known | given
    · exact (h.told live based known).imp_right fun given => given.later h.extension h'
    · exact .inr (given.extends_before h.extension)

/-- A session that leaves types as they are resolves none. -/
theorem of_leaves (extension : s.Extends s') (leaves : s.LeavesTypes s') : s.Traces s' where
  extension := extension
  told live _ resolved :=
    .inl ((congrArg WrappingType.resolved (leaves.wrappers.cell live)).trans resolved)

theorem addition : Addition Traces := LeavesTypes.enlarges lasting of_leaves

/-- A wrapper that exists is resolved. It may have been resolved in the meantime, but none of those
that were built since is touched. -/
theorem given_putWrapper {o : Origin} (live : r.index < s.wrappers.size) (c : WrappingType)
    (given : s.Gives s' o v) : s.Gives (s'.putWrapper r c) o v := by
  refine given.congr (Nat.le_of_eq (Arena.size_put ..).symm) fun p new _ => ?_
  exact s'.wrappers.get_put_of_ne c (Nat.ne_of_lt (Nat.lt_of_lt_of_le live new))

theorem putWrapper (h : s.Traces s') (unresolved : (s.wrapper r).resolved = none)
    (based : (s.wrapper r).source = some x) (may : MayResolve x t)
    (gave : ∀ d, x = .deferred d → s.Gives s' d.body.origin t) :
    s.Traces (s'.putWrapper r { s'.wrapper r with resolved := Types.kept t }) where
  extension := h.extension.putWrapper unresolved based may
  told {p d u} live based' resolved := by
    by_cases same : r.index = p.index
    · obtain rfl : r = p := Value.eq_iff_index.2 same
      have cell := Arena.get_put_self s'.wrappers { s'.wrapper r with resolved := Types.kept t }
        (Nat.lt_of_lt_of_le live h.extension.wrappers.size)
      rw [show (s'.putWrapper r _).wrapper r = _ from cell] at resolved
      obtain rfl := Types.eq_of_kept resolved
      cases based.symm.trans based'
      exact .inr (given_putWrapper live _ (gave d rfl))
    · have cell := Arena.get_put_of_ne s'.wrappers
        { s'.wrapper r with resolved := Types.kept t } same
      rw [show (s'.putWrapper r _).wrapper p = _ from cell] at resolved
      refine (h.told live based' resolved).imp_right fun given => ?_
      refine given.congr (Nat.le_of_eq (Arena.size_put ..).symm) fun p' new _ => ?_
      by_cases exists' : r.index < s.wrappers.size
      · exact s'.wrappers.get_put_of_ne _ (Nat.ne_of_lt (Nat.lt_of_lt_of_le exists' new))
      · rw [Session.wrapper, Arena.get_of_le (Nat.le_of_not_lt exists')] at based
        cases based

theorem putArgument (h : s.Traces s') {q : Ref .argument}
    (unresolved : (s.argument q).resolved = none) (may : MayResolve (s.argument q).source t) :
    s.Traces (s'.putArgument q { s'.argument q with resolved := Types.kept t }) where
  extension := h.extension.putArgument unresolved may
  told live based resolved :=
    (h.told live based resolved).imp_right fun given =>
      given.congr (Nat.le_refl _) fun _ _ _ => rfl

end Traces

end Session

/-! ### What is made -/

/-- An action that returns neither wrapping types nor references. -/
def Action.Makes (act : Action Value) : Prop := ∀ s v s', act s = .ok v s' → v.isFinal = true

namespace Action.Makes

theorem pure (final : v.isFinal = true) : Makes (Pure.pure v) := by
  rintro _ _ _ ⟨⟩
  exact final

theorem throw (f : Fault) : Makes (MonadExcept.throw f) := by
  rintro _ _ _ ⟨⟩

theorem bind {act : Action α} {f : α → Action Value} (rest : ∀ a, Makes (f a)) :
    Makes (act >>= f) := by
  intro s v s' run
  obtain ⟨a, s₁, -, run⟩ := Action.ok_of_bind run
  exact rest a s₁ v s' run

end Action.Makes

namespace Expression

open Action (Makes)

theorem makes_argument (name type default description : Option Value) :
    Makes (buildArgument name type default description) := by
  unfold buildArgument
  split
  · exact .bind fun _ => .pure rfl
  · exact .throw _

theorem makes_directive (route : Route) (name locations args description : Option Value) :
    Makes (buildDirective supply route name locations args description) := by
  unfold buildDirective
  split
  · exact .bind fun _ => .pure rfl
  · exact .throw _

theorem makes_scalar (name : Option Value) (serialize parse : Coercion)
    (description : Option Value) : Makes (buildScalar name serialize parse description) := by
  unfold buildScalar
  split
  · exact .bind fun _ => .pure rfl
  · exact .throw _

theorem lookup_bound {name : String} (h : lookup name s = .ok v s') :
    s' = s ∧ s.binding? name = some v := by
  rw [lookup, Action.get_bind] at h
  cases bound : s.binding? name with
  | some x =>
    rw [bound] at h
    cases h
    exact ⟨rfl, rfl⟩
  | none =>
    rw [bound] at h
    cases h

end Expression

theorem Types.wrap_ok (h : Types.wrap w x s = .ok v s') : ¬(w = .nonNull ∧ x.isNonNull = true) ∧
    v = .wrapper w ⟨s.wrappers.size⟩ ∧
      s' = { s with wrappers := s.wrappers.add ⟨some x, none, []⟩ } := by
  rw [Types.wrap] at h
  split at h
  · cases h
  · next nullable =>
    cases h
    exact ⟨nullable, rfl, rfl⟩

theorem Types.wrap_of_nullable (nullable : ¬(w = .nonNull ∧ x.isNonNull = true)) (s : Session) :
    Types.wrap w x s = .ok (.wrapper w ⟨s.wrappers.size⟩)
      { s with wrappers := s.wrappers.add ⟨some x, none, []⟩ } := by
  rw [Types.wrap, if_neg nullable]
  rfl

/-! ### What is evaluated -/

mutual

/-- What an expression gave is of its origin. -/
theorem Expression.gives (kept : ∀ t : TypeExpression, Keeps Session.Extends (t.eval supply))
    {e : Expression} {v : Value} {s' : Session} (h : e.eval supply s = .ok v s') :
    s.Gives s' e.origin v := by
  cases e with
  | ref name =>
    rw [Expression.eval] at h
    exact .bound (Expression.lookup_bound h).2
  | type t =>
    rw [Expression.eval] at h
    exact TypeExpression.gives kept (t := t) h
  | null | bool | int | text | bytes | location =>
    rw [Expression.eval] at h
    cases h
    exact .made rfl
  | float x =>
    cases x <;> rw [Expression.eval] at h
    case nan => exact .made (Action.Makes.bind (fun _ => .pure rfl) s v s' h)
    case infinite | finite =>
      cases h
      exact .made rfl
    all_goals simp
  | foreign | list | tuple | set | dict =>
    rw [Expression.eval] at h
    refine .made (Action.Makes.bind (fun _ => ?_) s v s' h)
    first
      | exact .pure rfl
      | exact .bind fun _ => .pure rfl
      | exact .bind fun _ => .bind fun _ => .pure rfl
  | argument =>
    rw [Expression.eval] at h
    exact .made (Action.Makes.bind (fun _ => .bind fun _ => .bind fun _ => .bind fun _ =>
      Expression.makes_argument _ _ _ _) s v s' h)
  | directive =>
    rw [Expression.eval] at h
    exact .made (Action.Makes.bind (fun _ => .bind fun _ => .bind fun _ => .bind fun _ =>
      Expression.makes_directive _ _ _ _ _) s v s' h)

theorem TypeExpression.gives
    (kept : ∀ t : TypeExpression, Keeps Session.Extends (t.eval supply)) {t : TypeExpression}
    {v : Value} {s' : Session} (h : t.eval supply s = .ok v s') : s.Gives s' t.origin v := by
  cases t with
  | ref name =>
    rw [TypeExpression.eval] at h
    exact .bound (Expression.lookup_bound h).2
  | wrap w e =>
    rw [TypeExpression.eval] at h
    obtain ⟨source, s₁, run, wrapped⟩ := Action.ok_of_bind h
    have given := TypeExpression.gives kept run
    obtain ⟨nullable, rfl, rfl⟩ := Types.wrap_ok wrapped
    have cell := s₁.wrappers.get_add_self ⟨some source, none, []⟩
    have given' : s.Gives { s₁ with wrappers := s₁.wrappers.add ⟨some source, none, []⟩ }
        e.origin source := by
      refine given.congr (by rw [Arena.size_add]; exact Nat.le_succ _) fun r _ live => ?_
      exact s₁.wrappers.get_add_of_lt _ live
    refine .wrapped ((kept e).of_ok run).wrappers.size
      (by rw [Arena.size_add]; exact Nat.lt_succ_self _)
      (congrArg WrappingType.source cell) nullable given' (fun t known => ?_) fun d t _ known => ?_
    all_goals cases (congrArg WrappingType.resolved cell).symm.trans known
  | named | scalar =>
    rw [TypeExpression.eval] at h
    refine .made (Action.Makes.bind (fun _ => ?_) s v s' h)
    first
      | exact .pure rfl
      | exact .bind fun _ => .bind fun _ => .bind fun _ => Expression.makes_scalar _ _ _ _
  | value e =>
    rw [TypeExpression.eval] at h
    exact Expression.gives kept (e := e) h
  | deferred counter t =>
    rw [TypeExpression.eval] at h
    cases h
    exact .reference (d := ⟨s.nextTag, counter, t⟩)
  | raising =>
    rw [TypeExpression.eval] at h
    cases h

end

/-- Answers that can be traced: what a call gives is what the body of the deferred type gives. -/
structure Traced (answer : List Value → Deferred → Action Value) : Prop where
  extends' (ws : List Value) (d : Deferred) : Keeps Session.Extends (answer ws d)
  keeps (ws : List Value) (d : Deferred) : Keeps Session.Traces (answer ws d)
  gives {ws : List Value} {d : Deferred} {s s' : Session} {t : Value} :
    answer ws d s = .ok t s' → s.Gives s' d.body.origin t

namespace Traced

theorem observed (h : Traced answer) : Observed answer Session.Traces where
  toLasting := Session.Traces.lasting
  wrapped _ w r := Session.Traces.lasting.wrappedBy
    (fun kept unresolved based answered => kept.putWrapper unresolved based
      (mayResolve_of_demand answered) fun d same => by
        subst same
        exact h.gives answered) h.keeps w r
  type _ q := Session.Traces.lasting.typeBy
    (fun kept unresolved answered => kept.putArgument unresolved
      (mayResolve_of_demand answered)) h.keeps q
  note n s := .of_leaves (Session.Extends.growth.note n s) { Session.LeavesTypes.refl s with }

/-- What is evaluated leads to a session that can be traced. -/
theorem evalType (h : Traced answer) (ws : List Value) (t : TypeExpression) :
    Keeps Session.Traces (t.eval ⟨ws, answer⟩) :=
  Session.Traces.addition.evalType ws t (fun _ => h.observed.toObserving) fun _ =>
    Session.Traces.addition.toBuilding

theorem typeGives (h : Traced answer) {ws : List Value} {e : TypeExpression}
    (run : e.eval ⟨ws, answer⟩ s = .ok t s') : s.Gives s' e.origin t :=
  TypeExpression.gives (fun t => Session.Extends.growth.evalType ws t
    (fun _ => (Session.Extends.growth.observed h.extends').toObserving) fun _ =>
      Session.Extends.growth.toBuilding) run

theorem evaluate (h : Traced answer) (ws : List Value) (d : Deferred) :
    Keeps Session.Traces (d.evaluate ⟨ws, answer⟩) :=
  Session.Traces.addition.evaluate ws d fun _ => h.observed.toObserving

theorem evaluateGives (h : Traced answer) {ws : List Value} {d : Deferred}
    (run : d.evaluate ⟨ws, answer⟩ s = .ok t s') : s.Gives s' d.body.origin t := by
  have given : ({ s with calls := d.counter :: s.calls } : Session).Gives s' d.body.origin t :=
    h.typeGives run
  exact given.before (Nat.le_refl _) rfl

/-- The induction is on the calls inside: a call evaluates a body whose types are resolved by
answers with fewer calls inside. -/
theorem callWithin (n : Nat) : Traced (Deferred.callWithin n) := by
  have extended := Session.Extends.growth.callWithin
  induction n with
  | zero =>
    have silent : Traced fun _ _ => throw .endless :=
      ⟨fun _ _ => Session.Extends.lasting.throw _, fun _ _ => Session.Traces.lasting.throw _,
        fun run => nomatch run⟩
    refine ⟨extended 0, fun ws d => ?_, fun run => ?_⟩
    · unfold Deferred.callWithin
      split
      · exact silent.evaluate ws d
      · exact Session.Traces.lasting.throw _
    · unfold Deferred.callWithin at run
      split at run
      · exact silent.evaluateGives run
      · cases run
  | succ n ih => exact ⟨extended (n + 1), ih.evaluate, ih.evaluateGives⟩

theorem supplier : Traced Deferred.supplier.answer where
  extends' := Session.Extends.growth.call
  keeps ws d := Session.Traces.lasting.bounded fun n => (callWithin n).keeps ws d
  gives run := (callWithin _).gives run

end Traced

theorem Session.Leads.traces (h : s.Leads s') : s.Traces s' := h.keeps Traced.supplier.observed

end DirectiveSchema

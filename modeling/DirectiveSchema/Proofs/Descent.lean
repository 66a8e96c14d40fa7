import DirectiveSchema.Proofs.Origins
import DirectiveSchema.Proofs.Recurrence
import DirectiveSchema.Proofs.Resemblance

/-!
What lies under a wrapper. Before any reference is called it can be told from a session how types
are wrapped: by what is resolved, by what a wrapper is over, and by what the body of a reference
says. Each step that is taken down a chain of wrappers is the one that was told. As what lies under
something is determined by it, a chain that ends passes nothing twice, so that it is not longer than
the wrappers that exist and those that references may build.
-/
namespace DirectiveSchema

variable {b s s' u : Session} {t v x : Value} {w : Wrapper} {r : Ref .wrapper} {o : Origin}
  {W : Census} {n m : Nat} {ws : List Wrapper}

/-- What lies under a wrapper: a datum that exists, or what is to be given by an expression. -/
inductive Subject where
  | datum (v : Value)
  | given (o : Origin)

namespace Session

/-- What an expression gives. -/
def subject (b : Session) : Origin → Subject
  | .bound name => (b.binding? name).elim (.given .made) .datum
  | o => .given o

/-- What a source gives when it is asked for. -/
def asked (b : Session) : Value → Subject
  | .deferred d => b.subject d.body.origin
  | v => .datum v

/-- What is given when the source that an expression gives is asked for. -/
def askedOf (b : Session) : Origin → Subject
  | .bound name => (b.binding? name).elim (.given .made) b.asked
  | .reference e => b.subject e.origin
  | o => .given o

def givesNonNull (b : Session) : Origin → Bool
  | .bound name => (b.binding? name).any Value.isNonNull
  | .wrapped w _ => w == .nonNull
  | _ => false

/-- The class of a wrapper, and what lies under it. A non-null type is not built over another. -/
def under? (b : Session) : Subject → Option (Wrapper × Subject)
  | .datum (.wrapper w r) =>
    match (b.wrapper r).resolved, (b.wrapper r).source with
    | some t, _ => some (w, .datum t)
    | none, some source => some (w, b.asked source)
    | none, none => none
  | .given (.wrapped w e) =>
    if w = .nonNull ∧ b.givesNonNull e.origin = true then none
    else some (w, b.askedOf e.origin)
  | _ => none

/-- Something is wrapped in types of these classes, from the outside. -/
inductive Walks (b : Session) : Subject → List Wrapper → Subject → Prop where
  | here {p : Subject} : Walks b p [] p
  | step {p q z : Subject} {w : Wrapper} {ws : List Wrapper} :
      b.under? p = some (w, q) → Walks b q ws z → Walks b p (w :: ws) z

/-- A datum that came of what was told in a base session: it was there, or it was given. -/
inductive Stands (W : Census) (b s : Session) : Subject → Value → Prop where
  | datum {v : Value} : v.Belongs W → Stands W b s (.datum v) v
  | given {o : Origin} {v : Value} : (∀ name, o ≠ .bound name) → b.Gives s o v →
      Stands W b s (.given o) v

end Session

theorem Types.wrapped_cases {supply : Supplier} (h : wrapped supply w r s = .ok t s') :
    (s.wrapper r).resolved = some t ∧ s' = s ∨
      ∃ source s₁, (s.wrapper r).resolved = none ∧ (s.wrapper r).source = some source ∧
        demand supply source s = .ok t s₁ ∧
          s' = s₁.putWrapper r { s₁.wrapper r with resolved := kept t } := by
  cases known : (s.wrapper r).resolved with
  | some t' =>
    rw [wrapped_of_resolved known] at h
    cases h
    exact .inl ⟨rfl, rfl⟩
  | none =>
    cases based : (s.wrapper r).source with
    | none =>
      rw [wrapped_of_blank known based] at h
      cases h
    | some source =>
      cases demanded : demand supply source s with
      | error f s₁ =>
        rw [wrapped_of_fault known based demanded] at h
        cases h
      | ok t' s₁ =>
        rw [wrapped_of_demand known based demanded] at h
        cases h
        exact .inr ⟨source, s₁, rfl, rfl, demanded, rfl⟩

namespace Session

open Value (Belongs)

/-! ### What was told comes to pass -/

theorem Gives.isNonNull_eq (h : b.Gives s o v) : v.isNonNull = b.givesNonNull o := by
  cases h with
  | bound known => simp only [givesNonNull, known, Option.any_some]
  | @wrapped w => cases w <;> rfl
  | reference => rfl
  | made final => cases v <;> first | rfl | cases final

theorem Gives.stands (h : b.Gives s o v) (fits : b.Fits W) : b.Stands W s (b.subject o) v := by
  cases h with
  | bound known =>
    rw [subject, known]
    exact .datum (fits.binding known)
  | wrapped new live based nullable given may told =>
    exact .given nofun (.wrapped new live based nullable given may told)
  | reference => exact .given nofun .reference
  | made final => exact .given nofun (.made final)

/-- A reference that was given is asked for what its body gives. -/
theorem Gives.askedOf_deferred {d : Deferred} (h : b.Gives s o (.deferred d)) :
    b.askedOf o = b.subject d.body.origin := by
  cases h with
  | bound known =>
    rw [askedOf, known]
    rfl
  | reference => rfl
  | made final => cases final

/-- A source that was given, and that is no reference, is what it is asked for. -/
theorem Gives.stands_asked (h : b.Gives s o v) (fits : b.Fits W) (known : v.isDeferred = false) :
    b.Stands W s (b.askedOf o) v := by
  cases h with
  | bound bound =>
    have same : b.asked v = .datum v := by
      cases v <;> first | rfl | cases known
    rw [askedOf, bound, Option.elim_some, same]
    exact .datum (fits.binding bound)
  | wrapped new live based nullable given may told =>
    exact .given nofun (.wrapped new live based nullable given may told)
  | reference => cases known
  | made final => exact .given nofun (.made final)

theorem Stands.later {p : Subject} (h : b.Stands W s p v) (extension : b.Extends s)
    (traces : s.Traces u) : b.Stands W u p v := by
  cases h with
  | datum belongs => exact .datum belongs
  | given unbound gives => exact .given unbound (gives.later extension traces)

/-- A type that a wrapper which exists was resolved to is what it was told to wrap. -/
theorem stands_resolved (fits : b.Fits W) (traces : b.Traces s) (live : r.index < b.wrappers.size)
    (resolved : (s.wrapper r).resolved = some t) :
    ∃ q, b.under? (.datum (.wrapper w r)) = some (w, q) ∧ b.Stands W s q t := by
  have settles := traces.extension.wrapper live
  have held := WrappingType.includes_contents.1 (fits.wrapper r)
  cases known : (b.wrapper r).resolved with
  | some t' =>
    cases (settles.resolved known).symm.trans resolved
    refine ⟨.datum t, by simp only [under?, known], .datum ?_⟩
    exact held.1.2 t (by simp [known])
  | none =>
    rcases settles.honest resolved with before | ⟨source, based, may⟩
    · cases known.symm.trans before
    · refine ⟨b.asked source, by simp only [under?, known, based], ?_⟩
      cases source with
      | deferred d =>
        rcases traces.told live based resolved with before | given
        · cases known.symm.trans before
        · exact given.stands fits
      | _ =>
        obtain rfl := may.resolve_right (by simp)
        exact .datum (held.1.1 _ (by simp [based]))

/-- What is asked of a source is what was told of it. -/
theorem stands_demanded (extension : b.Extends s)
    (live : r.index < s.wrappers.size)
    (demanded : Types.demand Deferred.supplier x s = .ok t s') (c : WrappingType) :
    (x.isDeferred = false ∧ t = x) ∨
      ∃ d, x = .deferred d ∧ b.Gives (s'.putWrapper r c) d.body.origin t := by
  cases x with
  | deferred d =>
    refine .inr ⟨d, rfl, ?_⟩
    exact (Traces.given_putWrapper live c (Traced.supplier.gives demanded)).extends_before extension
  | _ =>
    cases demanded
    exact .inl ⟨rfl, rfl⟩

/-- Every step down a chain of wrappers is the one that was told. -/
theorem Stands.wrapped {p : Subject} (fits : b.Fits W) (traces : b.Traces s)
    (h : b.Stands W s p (.wrapper w r))
    (run : Types.wrapped Deferred.supplier w r s = .ok t s') :
    ∃ q, b.under? p = some (w, q) ∧ b.Stands W s' q t := by
  have later : s.Traces s' := (Traced.supplier.observed.wrapped [] w r).of_ok run
  have extension := traces.extension
  cases h with
  | datum belongs =>
    have live : r.index < b.wrappers.size :=
      Nat.lt_of_lt_of_eq (belongs.counted rfl) (fits.count .wrapper).symm
    have live' := Nat.lt_of_lt_of_le live extension.wrappers.size
    have settles := extension.wrapper live
    rcases Types.wrapped_cases run with ⟨resolved, rfl⟩ | ⟨source, s₁, blank, based, demanded, rfl⟩
    · exact stands_resolved fits traces live resolved
    · have blank' := settles.unresolved blank
      have based' := settles.source.symm.trans based
      refine ⟨b.asked source, by simp only [under?, blank', based'], ?_⟩
      rcases stands_demanded extension live' demanded _ with ⟨known, rfl⟩ | ⟨d, rfl, given⟩
      · have same : b.asked t = .datum t := by cases t <;> first | rfl | cases known
        have held := (WrappingType.includes_contents.1 (fits.wrapper r)).1.1
        exact same ▸ .datum (held t (by simp [based']))
      · exact given.stands fits
  | given unbound gives =>
    cases gives with
    | made final => cases final
    | bound => exact absurd rfl (unbound _)
    | @wrapped _ e _ source new live based nullable given may told =>
      have nullable' : ¬(w = .nonNull ∧ b.givesNonNull e.origin = true) :=
        given.isNonNull_eq ▸ nullable
      refine ⟨b.askedOf e.origin, if_neg nullable', ?_⟩
      rcases Types.wrapped_cases run with ⟨resolved, rfl⟩ | ⟨_, s₁, -, based', demanded, rfl⟩
      · cases source with
        | deferred d =>
          rw [given.askedOf_deferred]
          exact (told d t rfl resolved).stands fits
        | _ =>
          obtain rfl := (may t resolved).resolve_right (by simp)
          exact given.stands_asked fits rfl
      · cases based.symm.trans based'
        rcases stands_demanded extension live demanded _ with ⟨known, rfl⟩ | ⟨d, rfl, given'⟩
        · exact (given.later extension later).stands_asked fits known
        · rw [given.askedOf_deferred]
          exact given'.stands fits

/-! ### What can be built -/

/-- An expression of this origin can be evaluated: its names are bound, and no non-null type is
built over a non-null type. -/
inductive Evaluates (b : Session) : Origin → Prop where
  | bound {name : String} : (b.binding? name).isSome = true → Evaluates b (.bound name)
  | wrapped {w : Wrapper} {e : TypeExpression} :
      ¬(w = .nonNull ∧ b.givesNonNull e.origin = true) → Evaluates b e.origin →
        Evaluates b (.wrapped w e)
  | reference {e : TypeExpression} : Evaluates b (.reference e)

/-- What leads to a datum through wrappers can be evaluated. -/
theorem Walks.evaluates {p : Subject} (h : b.Walks p ws (.datum t))
    (source : p = b.subject o ∨ p = b.askedOf o) : b.Evaluates o := by
  generalize ends : Subject.datum t = z at h
  induction h generalizing o with
  | here =>
    subst ends
    cases o with
    | bound name =>
      refine .bound ?_
      cases known : b.binding? name with
      | some => rfl
      | none =>
        simp only [subject, askedOf, known] at source
        rcases source with same | same <;> cases same
    | reference => exact .reference
    | wrapped | made => rcases source with same | same <;> cases same
  | @step p _ _ _ _ under _ ih =>
    cases o with
    | bound name =>
      refine .bound ?_
      cases known : b.binding? name with
      | some => rfl
      | none =>
        simp only [subject, askedOf, known] at source
        rcases source with rfl | rfl <;> cases under
    | reference => exact .reference
    | made => rcases source with rfl | rfl <;> cases under
    | wrapped w e =>
      obtain rfl : p = .given (.wrapped w e) := source.elim id id
      rw [under?] at under
      split at under
      · cases under
      · next nullable =>
        cases under
        exact .wrapped nullable (ih (.inr rfl) ends)

theorem Evaluates.congr (h : b.Evaluates o) (bindings : s.bindings = b.bindings) :
    s.Evaluates o := by
  have same (name : String) : s.binding? name = b.binding? name := by
    rw [binding?, bindings, binding?]
  induction h with
  | bound known => exact .bound (same _ ▸ known)
  | @wrapped w e nullable _ ih =>
    refine .wrapped (fun double => nullable ⟨double.1, ?_⟩) ih
    rw [← double.2]
    cases e.origin <;> simp only [givesNonNull, same]
  | reference => exact .reference

end Session

section

variable {answer : List Value → Deferred → Action Value} {places : List Value}

mutual

theorem Expression.eval_of_evaluates (traced : Traced answer) {e : Expression} {s : Session}
    (h : s.Evaluates e.origin) : ∃ v s', e.eval ⟨places, answer⟩ s = .ok v s' := by
  cases e with
  | ref name =>
    rw [Expression.origin] at h
    obtain ⟨v, known⟩ := Option.isSome_iff_exists.1 (by cases h; assumption)
    exact ⟨v, s, by rw [Expression.eval, Expression.lookup, Action.get_bind, known]; rfl⟩
  | type t =>
    rw [Expression.origin] at h
    rw [Expression.eval]
    exact TypeExpression.eval_of_evaluates traced h
  | _ =>
    rw [Expression.origin] at h
    cases h
    all_goals simp

theorem TypeExpression.eval_of_evaluates (traced : Traced answer) {t : TypeExpression}
    {s : Session} (h : s.Evaluates t.origin) : ∃ v s', t.eval ⟨places, answer⟩ s = .ok v s' := by
  cases t with
  | ref name =>
    rw [TypeExpression.origin] at h
    obtain ⟨v, known⟩ := Option.isSome_iff_exists.1 (by cases h; assumption)
    exact ⟨v, s, by rw [TypeExpression.eval, Expression.lookup, Action.get_bind, known]; rfl⟩
  | wrap w e =>
    rw [TypeExpression.origin] at h
    cases h with
    | wrapped nullable inner =>
      obtain ⟨x, s₁, run⟩ := TypeExpression.eval_of_evaluates (t := e) traced inner
      have nullable' : ¬(w = .nonNull ∧ x.isNonNull = true) :=
        (traced.typeGives run).isNonNull_eq ▸ nullable
      rw [TypeExpression.eval, Action.bind_of_ok run]
      exact ⟨_, _, Types.wrap_of_nullable nullable' s₁⟩
  | value e =>
    rw [TypeExpression.origin] at h
    rw [TypeExpression.eval]
    exact Expression.eval_of_evaluates traced h
  | deferred counter e =>
    rw [TypeExpression.eval]
    exact ⟨_, _, rfl⟩
  | _ =>
    rw [TypeExpression.origin] at h
    cases h
    all_goals simp

end

end

/-- A reference whose body can be evaluated is answered. -/
theorem Deferred.answer_of_evaluates {d : Deferred} (h : s.Evaluates d.body.origin)
    (places : List Value) : ∃ v s', Deferred.supplier.answer places d s = .ok v s' :=
  TypeExpression.eval_of_evaluates (Traced.callWithin _)
    (h.congr (s := { s with calls := d.counter :: s.calls }) rfl)

namespace Session

/-- From one session to another, a datum is peeled: its wrappers are taken off, so many. -/
inductive Peels : Session → Value → List Wrapper → Value → Session → Prop where
  | shut {s : Session} {v : Value} : Peels s v [] v s
  | step {s s' s'' : Session} {w : Wrapper} {r : Ref .wrapper} {t v : Value} {ws : List Wrapper} :
      Types.wrapped Deferred.supplier w r s = .ok t s' → Peels s' t ws v s'' →
        Peels s (.wrapper w r) (w :: ws) v s''

/-- What was told to lie under a wrapper, and to lead to a datum, is what the wrapper wraps. -/
theorem Stands.descends {p q : Subject} (fits : b.Fits W) (traces : b.Traces s)
    (h : b.Stands W s p v) (under : b.under? p = some (w, q)) (walks : b.Walks q ws (.datum t)) :
    ∃ r x s', v = .wrapper w r ∧ Types.wrapped Deferred.supplier w r s = .ok x s' ∧
      b.Stands W s' q x := by
  have asks {r : Ref .wrapper} {source : Value} (unresolved : (s.wrapper r).resolved = none)
      (based : (s.wrapper r).source = some source)
      (ready : ∀ d, source = .deferred d → b.Evaluates d.body.origin) :
      ∃ x s', Types.wrapped Deferred.supplier w r s = .ok x s' := by
    cases source with
    | deferred d =>
      have ready' := (ready d rfl).congr traces.extension.bindings
      obtain ⟨x, s₁, answered⟩ := Deferred.answer_of_evaluates ready' []
      exact ⟨x, _, Types.wrapped_of_demand unresolved based answered⟩
    | _ => exact ⟨_, _, Types.wrapped_of_demand unresolved based rfl⟩
  have found : ∃ r x s', v = .wrapper w r ∧ Types.wrapped Deferred.supplier w r s = .ok x s' := by
    cases h with
    | datum belongs =>
      cases v with
      | wrapper w' r =>
        have live : r.index < b.wrappers.size :=
          Nat.lt_of_lt_of_eq (belongs.counted rfl) (fits.count .wrapper).symm
        have settles := traces.extension.wrapper live
        cases resolved : (s.wrapper r).resolved with
        | some x =>
          obtain rfl : w' = w := by
            rw [under?] at under
            split at under <;> cases under <;> rfl
          exact ⟨r, x, s, rfl, Types.wrapped_of_resolved resolved⟩
        | none =>
          rw [under?, settles.unresolved resolved] at under
          cases based : (b.wrapper r).source with
          | none =>
            rw [based] at under
            cases under
          | some source =>
            rw [based] at under
            cases under
            obtain ⟨x, s', run⟩ := asks resolved (settles.source.trans based) fun d same =>
              walks.evaluates (.inl (by rw [same, asked]))
            exact ⟨r, x, s', rfl, run⟩
      | _ => cases under
    | given unbound gives =>
      cases gives with
      | bound => exact absurd rfl (unbound _)
      | reference | made => cases under
      | @wrapped w' e r source new live based nullable given may told =>
        have nullable' : ¬(w' = .nonNull ∧ b.givesNonNull e.origin = true) :=
          given.isNonNull_eq ▸ nullable
        rw [under?, if_neg nullable'] at under
        cases under
        cases resolved : (s.wrapper r).resolved with
        | some x => exact ⟨r, x, s, rfl, Types.wrapped_of_resolved resolved⟩
        | none =>
          obtain ⟨x, s', run⟩ := asks resolved based fun d same =>
            walks.evaluates (.inl ((same ▸ given).askedOf_deferred))
          exact ⟨r, x, s', rfl, run⟩
  obtain ⟨r, x, s', rfl, run⟩ := found
  obtain ⟨q', under', stands⟩ := h.wrapped fits traces run
  cases under.symm.trans under'
  exact ⟨r, x, s', rfl, run, stands⟩

/-- What leads to a datum can be peeled until the datum is left, which was there before. -/
theorem Stands.peels {p : Subject} (fits : b.Fits W) (traces : b.Traces s) (h : b.Stands W s p v)
    (walks : b.Walks p ws (.datum t)) :
    t.Belongs W ∧ ∃ s', Peels s v ws t s' ∧ s.Leads s' := by
  generalize ends : Subject.datum t = z at walks
  induction walks generalizing s v with
  | here =>
    subst ends
    cases h with
    | datum belongs => exact ⟨belongs, s, .shut, .refl⟩
  | step under rest ih =>
    subst ends
    obtain ⟨r, x, s', rfl, run, stands⟩ := h.descends fits traces under rest
    have leads : s.Leads s' := ((Later.observed _).wrapped [] _ r).of_ok run
    obtain ⟨belongs, s'', peels, leads'⟩ :=
      ih (Traces.lasting.trans traces leads.traces) stands rfl
    exact ⟨belongs, s'', .step run peels, leads.trans leads'⟩

end Session

end DirectiveSchema

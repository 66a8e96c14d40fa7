import DirectiveSchema.Proofs.Replying
import DirectiveSchema.Proofs.Resolution

/-!
Requests that read data. They may resolve types, build copies and configurations, and count calls,
but what they leave cannot be told from what they found: the session that a request leaves is ahead
of the one before, so the next request is answered as if the first one had not been made.
-/
namespace DirectiveSchema

open Pairing

variable {φ : Pairing} {s t : Session}

namespace Request

/-- Whether a request reads data, which may build a copy or a configuration, and binds no name. -/
def reads : Request → Bool
  | get _ _ name | item _ _ name | copy _ _ name | toConfig _ name => name.isNone
  | value _ | label _ | literal _ | equal _ _ | unequal _ _ | same _ _ | hashEqual _ _ | distinct _
  | appliesTo _ _ | unwrapType _ | nullableType _ | isInputType _ | validate _ | mapGet _ _ => true
  | _ => false

end Request

/-! ### A session goes on alone -/

namespace Evolves

theorem eval (e : Expression) : Keeps Evolves (e.eval Deferred.supplier) :=
  addition.toStocking.eval [] e (fun _ => observed.toObserving) fun _ => addition.toBuilding

/-- Whatever is read. -/
theorem perform {q : Request} (reads : q.reads = true) :
    Keeps Evolves (q.perform Deferred.supplier) := by
  cases q with
  | copy e mode name =>
    cases Option.isNone_iff_eq_none.1 reads
    exact lasting.bind (eval e) fun v => lasting.bind
      (furnishing.copy mode v fun _ => addition.toBuilding) fun _ => lasting.pure _
  | toConfig e name =>
    cases Option.isNone_iff_eq_none.1 reads
    exact lasting.bind (eval e) fun _ => lasting.bind (observed.asDirective _ _) fun _ =>
      lasting.bind (addition.toStocking.toConfig _) fun _ =>
        lasting.bind (observed.answer _) fun _ => lasting.pure _
  | _ =>
    first
      | exact observed.toChecked.perform reads fun e _ => eval e
      | cases reads

theorem run {q : Request} (reads : q.reads = true) (s : Session) : Evolves s (s.run q).2 := by
  have kept := observed.guard (perform reads) { s with journal := [] }
  simp only [Session.run]
  cases result : Answer.guard Deferred.supplier (q.perform Deferred.supplier)
      { s with journal := [] } with
  | ok o s' =>
    rw [Action.after_of_ok result] at kept
    exact trans (noted s []) (trans kept (noted s' _))
  | error f s' =>
    rw [Action.after_of_error result] at kept
    have forgotten : { s' with bindings := s.bindings } = s' := by rw [← kept.bindings]
    exact trans (noted s []) (trans kept (forgotten ▸ noted s' _))

end Evolves

/-! ### Both sessions are asked the same -/

/-- How a request reads: it shows a datum that is obtained alike, or it answers the same. -/
inductive Request.ReadsAlike (q : Request) : Prop where
  | shows (x : Action Value) :
      q.perform Deferred.supplier = (do Answer.of Deferred.supplier (← x)) →
        (∀ φ, Tallies False φ x x Relates) → ReadsAlike q
  | answers : (∀ φ, Tallies False φ (q.perform Deferred.supplier) (q.perform Deferred.supplier)
      Same) → ReadsAlike q

namespace Request.ReadsAlike

theorem showBound_none (v : Value) :
    showBound Deferred.supplier none v = Answer.of Deferred.supplier v := by
  simp only [showBound, bindName, pure_bind, bind_pure]

section

variable {α : Type} {post : Pairing → α → α → Prop} {e e' : Expression}
  (quiet : e.isQuiet false = true)

include quiet

theorem one {f : Value → Action α}
    (rest : ∀ {φ v v'}, φ.Relates v v' → Tallies False φ (f v) (f v') post) (φ : Pairing) :
    Tallies False φ (do f (← e.eval Deferred.supplier)) (do f (← e.eval Deferred.supplier)) post :=
  (Tallies.eval e quiet φ).bind fun _ related => rest related

theorem both (quiet' : e'.isQuiet false = true) {f : Value → Value → Action α}
    (rest : ∀ {φ v v' w w'}, φ.Relates v v' → φ.Relates w w' →
      Tallies False φ (f v w) (f v' w') post) (φ : Pairing) :
    Tallies False φ (do f (← e.eval Deferred.supplier) (← e'.eval Deferred.supplier))
      (do f (← e.eval Deferred.supplier) (← e'.eval Deferred.supplier)) post :=
  (Tallies.eval e quiet φ).bind fun _ first => (Tallies.eval e' quiet' _).bind fun le second =>
    rest (first.mono le) second

end

/-- Keys of paired data are found equal in both sessions or in neither. -/
theorem hashesEqual {v v' w w' : Value} (first : φ.Relates v v') (second : φ.Relates w w') :
    Tallies False φ
      (do
        let key ← HashKey.of Deferred.supplier v
        return Answer.bool (decide (key = (← HashKey.of Deferred.supplier w))))
      (do
        let key ← HashKey.of Deferred.supplier v'
        return Answer.bool (decide (key = (← HashKey.of Deferred.supplier w')))) Same :=
  (Tallies.hash first).bind fun le key => (Tallies.hash (second.mono le)).bind fun le' key' =>
    .of_one fun one => .pure (congrArg Answer.bool
      (decide_eq_decide.2 ((key.mono le').eq_iff one key')))

theorem appliesTo {v v' w w' : Value} (first : φ.Relates v v') (second : φ.Relates w w') :
    Tallies False φ
      (do return Answer.bool (← Directives.appliesTo Deferred.supplier
        (← Access.asDirective v "applies_to") w))
      (do return Answer.bool (← Directives.appliesTo Deferred.supplier
        (← Access.asDirective v' "applies_to") w')) Same :=
  (Tallies.asDirective _ first).bind fun le paired =>
    (Tallies.appliesTo paired (second.mono le)).mapKept fun _ same => congrArg Answer.bool same

/-- Every request that reads. -/
theorem of_reads {q : Request} (reads : q.reads = true) (quiet : q.isQuiet = true) :
    q.ReadsAlike := by
  have first {e : Expression} {es : List Expression} (given : q.data = e :: es) :
      e.isQuiet false = true := quiet_of_mem quiet (given ▸ .head _)
  have second {e e' : Expression} (given : q.data = [e, e']) : e'.isQuiet false = true :=
    quiet_of_mem quiet (given ▸ .tail _ (.head _))
  cases q with
  | value e => exact .shows _ rfl (Tallies.eval e (first rfl))
  | label e =>
    exact .shows (do Display.labelValue Deferred.supplier (← e.eval Deferred.supplier))
      (bind_assoc _ _ _).symm (one (first rfl) (.labelValue .nil))
  | unwrapType e =>
    exact .shows (do Types.unwrap Deferred.supplier (← e.eval Deferred.supplier))
      (bind_assoc _ _ _).symm (one (first rfl) .unwrap)
  | nullableType e =>
    exact .shows (do Types.nullable Deferred.supplier (← e.eval Deferred.supplier))
      (bind_assoc _ _ _).symm (one (first rfl) .nullable)
  | get e key name =>
    cases Option.isNone_iff_eq_none.1 reads
    exact .shows (do Access.get Deferred.supplier (← e.eval Deferred.supplier) key)
      (by simp only [perform, showBound_none, bind_assoc]) (one (first rfl) (.get key))
  | item e key name =>
    cases Option.isNone_iff_eq_none.1 reads
    exact .shows (do
        let v ← e.eval Deferred.supplier
        Access.item Deferred.supplier v (← key.eval Deferred.supplier))
      (by simp only [perform, showBound_none, bind_assoc]) (both (first rfl) (second rfl) .item)
  | mapGet e key =>
    exact .shows (do
        let v ← e.eval Deferred.supplier
        Access.mapGet Deferred.supplier v (← key.eval Deferred.supplier))
      (by simp only [perform, bind_assoc]) (both (first rfl) (second rfl) .mapGet)
  | toConfig e name =>
    cases Option.isNone_iff_eq_none.1 reads
    exact .shows (do
        let v ← e.eval Deferred.supplier
        Directives.toConfig (← Access.asDirective v "to_config"))
      (by simp only [perform, showBound_none, bind_assoc])
      (one (first rfl) fun related => (Tallies.asDirective _ related).bind
        fun _ paired => .toConfig paired)
  | copy e mode name =>
    cases Option.isNone_iff_eq_none.1 reads
    exact .answers (one (first rfl) fun related => (Tallies.copy mode related).mapKept
      fun _ related => congrArg Answer.text related.className_eq)
  | literal e =>
    exact .answers (one (first rfl) fun related => (Tallies.literal .nil related).mapKept
      fun _ same => congrArg Answer.text same)
  | isInputType e =>
    exact .answers (one (first rfl) fun related => (Tallies.isInput related).mapKept
      fun _ same => congrArg Answer.bool same)
  | validate e =>
    exact .answers (one (first rfl) fun related => (Tallies.validate related).mapKept
      fun _ _ => rfl)
  | distinct e =>
    exact .answers (one (first rfl) fun related => (Tallies.elements related).bind fun _ related =>
      (Tallies.distinct related).mapKept fun _ related => by simp only [related.length_eq])
  | equal a b =>
    exact .answers (both (first rfl) (second rfl) fun v w => (Tallies.equal.tallies v w).mapKept
      fun _ same => congrArg Answer.bool same)
  | unequal a b =>
    exact .answers (both (first rfl) (second rfl) fun v w => (Tallies.equal.tallies v w).mapKept
      fun _ same => congrArg (fun b => Answer.bool !b) same)
  | same a b =>
    exact .answers (both (first rfl) (second rfl) fun v w => .of_one fun one =>
      .pure (congrArg Answer.bool (v.same_eq one w)))
  | hashEqual a b => exact .answers (both (first rfl) (second rfl) hashesEqual)
  | appliesTo e l => exact .answers (both (first rfl) (second rfl) appliesTo)
  | _ => cases reads

end Request.ReadsAlike

/-! ### Answers in both sessions -/

section

variable {x y : Action Answer}

/-- What is reported of actions that tally matches, whatever becomes of the report itself. -/
theorem Tally.reported (tally : Tally False φ x y (fun _ => Answer.Matches) s t)
    (coherent : (y.after t).Coherent) :
    (s.settle (Answer.guard Deferred.supplier x s)).1.Matches
      (t.settle (Answer.guard Deferred.supplier y t)).1 := by
  have failed {x : Action Answer} {e : Fault} {s s' : Session} (run : x s = .error e s') :
      Answer.guard Deferred.supplier x s = Answer.ofFault (Answer.of Deferred.supplier) e s' :=
    Action.tryCatch_of_error (Action.bind_of_error run)
  cases tally with
  | ok run run' _ _ matched =>
    have returned {x : Action Answer} {a : Answer} {s s' : Session} (run : x s = .ok a s') :
        Answer.guard Deferred.supplier x s = .ok (.ok a) s' :=
      Action.tryCatch_of_ok (Action.bind_of_ok run)
    rw [returned run, returned run']
    exact .ok matched
  | error run run' _ abreast related =>
    rw [failed run, failed run']
    rw [Action.after_of_error run'] at coherent
    cases (ShowsAlike.answer.fault related).tally (le_refl _) abreast coherent with
    | ok run run' _ _ matched =>
      rw [run, run']
      exact matched
    | error run run' _ _ related =>
      rw [run, run']
      simp only [Session.settle, related.kind, related.message, related.cause]
      exact .inr rfl
    | endless run endless =>
      rw [run]
      exact .inl (by rw [Session.settle, Outcome.isEndless, endless]; rfl)
  | endless run endless =>
    rw [failed run, Answer.ofFault_of_none (Fault.offendingName?_of_recursion endless)]
    exact .inl (by
      show (Outcome.fault _ _ none _).isEndless = true
      rw [Outcome.isEndless, endless]
      rfl)

end

/-- A request that reads is answered alike wherever the second session is ahead and coherent. -/
theorem Abreast.answers_match (abreast : Abreast φ s t) (coherent : t.Coherent) {q : Request}
    (reads : q.reads = true) (quiet : q.isQuiet = true) :
    (s.run q).1.outcome.Matches (t.run q).1.outcome := by
  have abreast := abreast.noted [] []
  have coherent := coherent.noted []
  refine Tally.reported (φ := φ) ?_ (Sustains.perform quiet _ coherent .nil).1
  cases Request.ReadsAlike.of_reads reads quiet with
  | shows x same tally =>
    have sustains : Keeps (Sustains []) x := .of_tallies fun t _ _ => tally t.identity
    rw [same]
    exact (tally φ _ _ abreast).bindKept abreast False.elim fun _ run abreast' related =>
      ((ShowsAlike.answer.replies related).tally (le_refl _) abreast'
        (sustains.of_ok run coherent .nil).1).lax
  | answers tally => exact (tally φ _ _ abreast).weaken fun _ same => same ▸ .refl _

/-- Reading is not observed. In every session that comes of requests whose calls are quiet, a
request that reads is answered as in the session that any other such request leaves, whether that
one succeeds or fails. An answer that tells of nesting without an end is excepted, since there may
be more room for nesting later. -/
theorem reading_is_not_observed (qs : List Request) (q r : Request)
    (quiet : ∀ p ∈ q :: r :: qs, p.isQuiet = true) (reads : q.reads = true)
    (reads' : r.reads = true) :
    let s := (BuiltIn.session.runAll qs).2
    (s.run r).1.outcome.isEndless = false →
      ((s.run q).2.run r).1.outcome.bare = (s.run r).1.outcome.bare := by
  intro s ends
  have coherent : s.Coherent := BuiltIn.session_coherent.runAll fun p hp =>
    quiet p (.tail _ (.tail _ hp))
  have abreast : Abreast s.identity s (s.run q).2 :=
    coherent.abreast.evolves (Evolves.run reads s)
  rcases abreast.answers_match (coherent.run (quiet q (.head _))) reads'
    (quiet r (.tail _ (.head _))) with endless | same
  · rw [ends] at endless
    cases endless
  · exact same

/-- The kind and the message of a fault that is reported. -/
def Outcome.failure? : Outcome → Option (FaultKind × String)
  | .ok _ => none
  | .fault kind message _ _ => some (kind, message)

/-- A list of a type that is obtained later, and a required type that cannot be had. -/
def obtainedLater : List Request :=
  [.declareType "w" (.wrap .list (.deferred "b" (.value (.ref "Boolean")))),
    .declareType "p" (.wrap .nonNull (.deferred "c" (.raising .value "boom")))]

/-- The first request obtains the one type and fails on the other. -/
theorem obtained_later_is_read_alike :
    let s := (BuiltIn.session.runAll obtainedLater).2
    let q : Request := .literal (.tuple [.ref "w", .ref "p"])
    let r : Request := .literal (.ref "w")
    (∀ p ∈ q :: r :: obtainedLater, p.isQuiet = true) ∧
      (s.run q).1.outcome.failure? = some (.value, "boom") ∧
      (s.run r).1.outcome.isEndless = false ∧
      ((s.run q).2.run r).1.outcome.bare = (s.run r).1.outcome.bare :=
  ⟨by decide, by decide +kernel, by decide +kernel, reading_is_not_observed obtainedLater
    (.literal (.tuple [.ref "w", .ref "p"])) (.literal (.ref "w")) (by decide) rfl rfl
    (by decide +kernel)⟩

/-- A call that is not quiet may read the object that it is made for: the list that it writes holds
this object, and another one whose type cannot be had. -/
theorem entangled_reading_is_observed :
    let s := (BuiltIn.session.runAll entangled).2
    let q : Request := .isInputType (.ref "o")
    q.reads = true ∧ (s.run q).1.outcome.failure? = some (.value, "boom") ∧
      ((s.run q).2.run q).1.outcome.failure? = none :=
  ⟨rfl, by decide +kernel, by decide +kernel⟩

end DirectiveSchema

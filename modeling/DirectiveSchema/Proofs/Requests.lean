import DirectiveSchema.Proofs.Copying
import DirectiveSchema.Request

/-!
Requests. A request observes data, evaluates what it is given, and changes what it is told to; it
never changes a directive. What a request does, whatever comes of it, so keeps every relation that
growth and changes beside the directives keep, and a run of requests does.
-/
namespace DirectiveSchema

variable {R : Session → Session → Prop} {named : String → Prop}

/-! ### What requests are given -/

namespace Request

/-- The expressions that a request evaluates. -/
def data : Request → List Expression
  | isValidName e | assertValidName e | isLocation e | getLocation e | coerceInteger e
  | coerceFloat e | specifiedScalar e | isInputType e | unwrapType e | nullableType e
  | isSpecifiedDirective e | validate e | error _ e | describe e | declare _ e | value e
  | get e _ _ | delete e _ | label e | literal e | distinct e | copy e _ _ | wrap _ e _
  | toConfig e _ | fromConfig e _ => [e]
  | serialize a b | parse a b | set a _ b | item a b _ | append a b | equal a b | unequal a b
  | same a b | hashEqual a b | appliesTo a b | mapGet a b | mapDelete a b => [a, b]
  | mapSet a b c => [a, b, c]
  | demand t | declareType _ t => [.type t]
  | task _ args _ _ => args.map Prod.snd
  | join parts => parts
  | library | calls _ | tasks | requirements _ _ _ | writtenVersion _ _ | package _ _ => []

/-- Whether a request builds directives: because it is told to, from a configuration, or to restore
a stored copy. -/
def constructs (q : Request) : Bool :=
  q.data.any Expression.builds || match q with
    | fromConfig _ _ | copy _ .stored _ => true
    | _ => false

theorem constructs_of_mem {q : Request} {e : Expression} (given : e ∈ q.data)
    (builds : e.builds = true) : q.constructs = true :=
  Bool.or_eq_true_iff.2 (.inl (List.any_eq_true.2 ⟨e, given, builds⟩))

/-- The names of the attributes that a request assigns or deletes. -/
def alters : Request → List String
  | set _ key _ | delete _ key => [key]
  | _ => []

/-- Whether a request evaluates what it is given and observes it, and does nothing else. -/
def observes : Request → Bool
  | demand _ | describe _ | declare _ _ | declareType _ _ | set _ _ _ | delete _ _ | append _ _
  | copy _ _ _ | wrap _ _ _ | toConfig _ _ | fromConfig _ _ => false
  | get _ _ name | item _ _ name => name.isNone
  | _ => true

end Request

/-- A request that only observes does what evaluation and observation do. -/
theorem Checked.perform (h : Checked Deferred.supplier.answer R) {q : Request}
    (observes : q.observes = true) (value : ∀ e ∈ q.data, Keeps R (e.eval Deferred.supplier)) :
    Keeps R (q.perform Deferred.supplier) := by
  cases q with
  | isValidName e | isLocation e => exact h.bind (value e (.head _)) fun _ => h.pure _
  | assertValidName e =>
    exact h.bind (value e (.head _)) fun _ => h.bind (h.assertName [] _) fun _ => h.answer _
  | getLocation e => exact h.bind (value e (.head _)) fun _ => h.bind (h.location _) h.answer
  | serialize scalar e | parse scalar e =>
    refine h.bind (value scalar (.head _)) fun _ => h.bind (value e (.tail _ (.head _))) fun _ => ?_
    refine h.bind (h.asScalar _ _) fun _ => h.bind (h.bindGet fun _ => ?_) h.answer
    exact h.coerced _ _ _
  | coerceInteger e =>
    exact h.bind (value e (.head _)) fun _ => h.bind (h.coerceInteger _) fun _ => h.pure _
  | coerceFloat e =>
    exact h.bind (value e (.head _)) fun _ => h.bind (h.coerceFloat _) fun _ => h.pure _
  | specifiedScalar e =>
    exact h.bind (value e (.head _)) fun _ => h.bind (h.specifiedScalar _) h.answer
  | isInputType e =>
    exact h.bind (value e (.head _)) fun _ => h.bind (h.isInput [] _) fun _ => h.pure _
  | unwrapType e => exact h.bind (value e (.head _)) fun _ => h.bind (h.unwrap [] _) h.answer
  | nullableType e => exact h.bind (value e (.head _)) fun _ => h.bind (h.nullable [] _) h.answer
  | isSpecifiedDirective e =>
    exact h.bind (value e (.head _)) fun _ => h.bind (h.isSpecified _) fun _ => h.pure _
  | validate e =>
    exact h.bind (value e (.head _)) fun _ => h.bind (h.validate [] _) fun _ => h.pure _
  | error kind args =>
    exact h.bind (value args (.head _)) fun _ => h.bind (h.elements _) fun _ =>
      h.describeError kind _
  | library => exact h.describeLibrary
  | value e => exact h.bind (value e (.head _)) h.answer
  | get e key name =>
    cases Option.isNone_iff_eq_none.1 observes
    exact h.bind (value e (.head _)) fun _ => h.bind (h.get _ key) fun _ =>
      h.bind (h.answer _) fun _ => h.bind (h.pure _) fun _ => h.pure _
  | item e key name =>
    cases Option.isNone_iff_eq_none.1 observes
    exact h.bind (value e (.head _)) fun _ => h.bind (value key (.tail _ (.head _))) fun _ =>
      h.bind (h.item _ _) fun _ => h.bind (h.answer _) fun _ => h.bind (h.pure _) fun _ => h.pure _
  | label e => exact h.bind (value e (.head _)) fun _ => h.bind (h.labelValue [] _) h.answer
  | literal e =>
    exact h.bind (value e (.head _)) fun _ => h.bind (h.literal [] _) fun _ => h.pure _
  | equal a b | unequal a b =>
    exact h.bind (value a (.head _)) fun _ => h.bind (value b (.tail _ (.head _))) fun _ =>
      h.bind (h.equal [] _ _) fun _ => h.pure _
  | same a b =>
    exact h.bind (value a (.head _)) fun _ => h.bind (value b (.tail _ (.head _))) fun _ => h.pure _
  | hashEqual a b =>
    exact h.bind (value a (.head _)) fun _ => h.bind (value b (.tail _ (.head _))) fun _ =>
      h.bind (h.hash [] _) fun _ => h.bind (h.hash [] _) fun _ => h.pure _
  | distinct e =>
    exact h.bind (value e (.head _)) fun _ => h.bind (h.elements _) fun _ =>
      h.bind (h.distinct [] _) fun _ => h.pure _
  | calls counter => exact h.bindGet fun _ => h.pure _
  | appliesTo e l =>
    exact h.bind (value e (.head _)) fun _ => h.bind (value l (.tail _ (.head _))) fun _ =>
      h.bind (h.asDirective _ _) fun _ => h.bind (h.appliesTo [] _ _) fun _ => h.pure _
  | mapGet e key =>
    exact h.bind (value e (.head _)) fun _ => h.bind (value key (.tail _ (.head _))) fun _ =>
      h.bind (h.mapGet _ _) h.answer
  | mapSet e key new =>
    exact h.bind (value e (.head _)) fun _ => h.bind (value key (.tail _ (.head _))) fun _ =>
      h.bind (value new (.tail _ (.tail _ (.head _)))) fun _ => h.bind (h.mapOf _) fun _ => h.throw _
  | mapDelete e key =>
    exact h.bind (value e (.head _)) fun _ => h.bind (value key (.tail _ (.head _))) fun _ =>
      h.bind (h.mapOf _) fun _ => h.throw _
  | tasks => exact h.pure _
  | task name args shell files =>
    have given {a : String × Expression} (among : a ∈ args) : Keeps R (do
        return (a.1, ← a.2.eval Deferred.supplier)) :=
      h.bind (value a.2 (List.mem_map_of_mem among)) fun _ => h.pure _
    refine h.bind (h.mapM_of_mem fun a among => given among) fun args => ?_
    exact h.bind (h.runTask args shell name _) fun _ => h.pure _
  | join parts =>
    refine h.attemptText (h.bind (h.mapM_of_mem value) fun vs => ?_)
    exact h.bind (h.filterM h.isTruthy vs) fun _ => h.bind (h.texts _ _) fun _ => h.pure _
  | requirements folder paths files => exact h.pure _
  | writtenVersion folder files => exact h.pure _
  | package folder files => exact h.pure _
  | _ => cases observes

namespace Serving

open Request

/-! ### Requests -/

theorem bindName (h : Serving R named) (name : Option String) (v : Value) :
    Keeps R (Request.bindName name v) := by
  cases name with
  | none => exact h.pure _
  | some x => exact fun s => h.bound s _

theorem showBound (h : Serving R named) (name : Option String) (v : Value) :
    Keeps R (Request.showBound Deferred.supplier name v) :=
  h.bind (h.checked.answer v) fun _ => h.bind (h.bindName name v) fun _ => h.pure _

theorem classBound (h : Serving R named) (name : Option String) (v : Value) :
    Keeps R (Request.classBound name v) :=
  h.bind (h.bindName name v) fun _ => h.pure _

/-- Only a request that builds directives asks whether the relation is kept by building them. -/
theorem perform (h : Serving R named) (q : Request)
    (building : q.constructs = true → Building (Keeps R)) (keys : ∀ key ∈ q.alters, named key) :
    Keeps R (q.perform Deferred.supplier) := by
  have checked := h.checked
  have value : ∀ e ∈ q.data, Keeps R (e.eval Deferred.supplier) := fun e given =>
    h.eval [] e (fun _ => checked.toObserving) fun builds =>
      building (Request.constructs_of_mem given builds)
  cases q with
  | demand t =>
    exact h.bind (value (.type t) (.head _)) fun _ => h.bind (h.demand h.call [] _) checked.answer
  | describe e => exact h.bind (value e (.head _)) h.describe
  | declare name e => exact h.bind (value e (.head _)) fun _ => h.classBound _ _
  | declareType name t => exact h.bind (value (.type t) (.head _)) fun _ => h.classBound _ _
  | get e key name =>
    exact h.bind (value e (.head _)) fun _ => h.bind (checked.get _ key) fun _ => h.showBound _ _
  | set e key new =>
    exact h.bind (value e (.head _)) fun _ => h.bind (value new (.tail _ (.head _))) fun _ =>
      h.bind (h.set _ _ (keys key (.head _))) fun _ => h.pure _
  | delete e key =>
    exact h.bind (value e (.head _)) fun _ => h.bind (h.delete _ (keys key (.head _))) fun _ =>
      h.pure _
  | item e key name =>
    exact h.bind (value e (.head _)) fun _ => h.bind (value key (.tail _ (.head _))) fun _ =>
      h.bind (checked.item _ _) fun _ => h.showBound _ _
  | append e x =>
    exact h.bind (value e (.head _)) fun _ => h.bind (value x (.tail _ (.head _))) fun _ =>
      h.bind (h.append _ _) fun _ => h.pure _
  | copy e mode name =>
    have stored (same : mode = .stored) : (Request.copy e mode name).constructs = true := by
      simp [constructs, same]
    exact h.bind (value e (.head _)) fun _ => h.bind (h.copy mode _ (stored · |> building)) fun _ =>
      h.classBound _ _
  | wrap w e name =>
    simp only [Request.perform]
    refine h.bind (value e (.head _)) fun v => ?_
    split
    · exact h.throwFirst _
    · exact h.bind (h.wrap w v) fun _ => h.showBound _ _
  | toConfig e name =>
    exact h.bind (value e (.head _)) fun _ => h.bind (checked.asDirective _ _) fun _ =>
      h.bind (h.toConfig _) fun _ => h.showBound _ _
  | fromConfig e name =>
    exact h.bind (value e (.head _)) fun _ =>
      h.bind (h.fromConfig (building (Bool.or_true _)) _) fun _ => h.showBound _ _
  | _ => exact checked.perform rfl value

/-! ### Runs -/

/-- A request that fails keeps what it did to the session, but for the names that it bound. -/
theorem run (h : Serving R named) (noted : ∀ (s : Session) (journal : List Notice),
      R s { s with journal }) (s : Session) (q : Request)
    (building : q.constructs = true → Building (Keeps R)) (keys : ∀ key ∈ q.alters, named key) :
    R s (s.run q).2 := by
  simp only [Session.run]
  have quiet : R s { s with journal := [] } := noted s []
  have kept := h.checked.guard (h.perform q building keys) { s with journal := [] }
  cases result : Answer.guard Deferred.supplier (q.perform Deferred.supplier)
      { s with journal := [] } with
  | ok o s' =>
    rw [Action.after_of_ok result] at kept
    exact h.trans quiet (h.trans kept (noted s' _))
  | error f s' =>
    rw [Action.after_of_error result] at kept
    exact h.trans quiet (h.trans kept (h.trans (h.bound s' _) (noted _ _)))

end Serving

namespace Custody

theorem run (h : Custody R) (s : Session) (q : Request) : R s (s.run q).2 :=
  h.handling.serving.run h.noted s q (fun _ => h.toBuilding) fun _ _ => trivial

theorem runAll (h : Custody R) (s : Session) (qs : List Request) : R s (s.runAll qs).2 := by
  induction qs generalizing s with
  | nil => exact h.refl s
  | cons q qs ih => exact h.trans (h.run s q) (ih (s.run q).2)

end Custody

end DirectiveSchema

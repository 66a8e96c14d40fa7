import DirectiveSchema.Proofs.Growth
import DirectiveSchema.Request

/-!
Observing data to the end. To read attributes and elements, to coerce data by scalars, to show and
describe them, and to run release work on them is to observe them, as long as nothing new is built.
-/
namespace DirectiveSchema

variable {R : Session → Session → Prop}

namespace Checked

variable (h : Checked Deferred.supplier.answer R)

include h

/-! ### Attributes and elements -/

theorem extra (className key : String) (as : Attributes) :
    Keeps R (Access.extra className key as) := by
  unfold Access.extra
  split
  · exact h.pure _
  · exact h.throw _

theorem required (q : Ref .argument) :
    Keeps R (Arguments.required Deferred.supplier q) :=
  h.argumentRequired [] q

theorem get (v : Value) (key : String) :
    Keeps R (Access.get Deferred.supplier v key) := by
  unfold Access.get
  refine h.bindGet fun s => ?_
  split
  · split
    · exact h.pure _
    · exact h.extra _ _ _
  · split
    · exact h.pure _
    · exact h.present _ _ _
    · exact h.extra _ _ _
  · split
    · exact h.wrapped [] _ _
    · exact h.extra _ _ _
  · split
    · exact h.argumentName _
    · exact h.argumentDescription _
    · exact h.argumentHasDefault _
    · exact h.argumentDefault _
    · exact h.type [] _
    · exact h.bind (h.required _) fun _ => h.pure _
    · exact h.extra _ _ _
  · split
    all_goals first
      | exact h.pure _
      | exact h.throw _
  · split
    all_goals first
      | exact h.pure _
      | exact h.throw _
  · split
    all_goals first
      | exact h.pure _
      | exact h.throw _
  · exact h.throw _

theorem elementAt (v : Value) (items : List Value) (key : Value) :
    Keeps R (Access.elementAt v items key) := by
  unfold Access.elementAt
  split
  · exact h.throw _
  · split
    · exact h.pure _
    · exact h.throw _

theorem item (v key : Value) :
    Keeps R (Access.item Deferred.supplier v key) := by
  have elements : Keeps R (do Access.elementAt v (← Container.elements v) key) :=
    h.bind (h.elements v) fun _ => h.elementAt _ _ _
  unfold Access.item
  split
  · exact elements
  · exact elements
  · refine h.bindGet fun _ => h.bind (h.valueAt [] _ _) fun found => ?_
    cases found with
    | some x => exact h.pure _
    | none => exact h.bind (h.literal [] _) fun _ => h.throw _
  · split
    · exact elements
    · exact h.throw _

theorem asDirective (v : Value) (operation : String) :
    Keeps R (Access.asDirective v operation) := by
  unfold Access.asDirective
  split
  · exact h.pure _
  · exact h.throw _

theorem addNamed (es : List Entry) (a : Value) :
    Keeps R (Access.addNamed Deferred.supplier es a) :=
  h.bind (h.get a "name") fun _ => h.assign [] _ _ _

theorem argumentMap (r : Ref .directive) :
    Keeps R (Access.argumentMap Deferred.supplier r) :=
  h.bindGet fun _ => h.foldlM h.addNamed _ _

theorem mapOf (v : Value) : Keeps R (Access.mapOf Deferred.supplier v) :=
  h.bind (h.asDirective _ _) fun _ => h.argumentMap _

theorem mapGet (v key : Value) :
    Keeps R (Access.mapGet Deferred.supplier v key) := by
  refine h.bind (h.mapOf v) fun _ => h.bind (h.valueAt [] _ _) fun found => ?_
  cases found with
  | some a => exact h.pure _
  | none => exact h.bind (h.literal [] _) fun _ => h.throw _

/-! ### Scalars -/

theorem wholeNumber (v : Value) :
    Keeps R (Scalars.wholeNumber Deferred.supplier v) := by
  cases v with
  | bool | int => exact h.pure _
  | null => exact h.throw _
  | float x =>
    cases x with
    | nan | infinite => exact h.throw _
    | finite negative steps =>
      simp only [Scalars.wholeNumber]
      split
      · split
        · exact h.pure _
        · exact h.throw _
      · exact h.throw _
  | text | location =>
    simp only [Scalars.wholeNumber, Value.text?]
    split
    · exact h.throw _
    · split
      · exact h.pure _
      · exact h.throw _
    · exact h.bind (h.literal [] _) fun _ => h.throw _
  | _ => exact h.bind (h.literal [] _) fun _ => h.throw _

theorem coerceInteger (v : Value) : Keeps R (Scalars.integer Deferred.supplier v) := by
  simp only [Scalars.integer]
  refine h.bind (h.wholeNumber v) fun n => ?_
  split
  · exact h.pure _
  · exact h.bind (h.filled [] v) fun _ => h.throw _

theorem found {α : Type} (f : Fault) (o : Option α) :
    Keeps R (Scalars.found f o) := by
  cases o with
  | some x => exact h.pure x
  | none => exact h.throw f

theorem floatOfInteger (n : Int) : Keeps R (Scalars.floatOfInteger n) :=
  h.found _ (Binary64.ofInt? n)

theorem coerceFloat (v : Value) : Keeps R (Scalars.float Deferred.supplier v) := by
  unfold Scalars.float
  split
  · exact h.throw _
  · exact h.pure _
  · exact h.floatOfInteger _
  · exact h.floatOfInteger _
  · split
    · exact h.pure _
    · exact h.bind (h.label [] _) fun _ => h.throw _
  · split
    · exact h.throw _
    · split
      · exact h.pure _
      · exact h.throw _
    · exact h.throw _

theorem stringIn (v : Value) : Keeps R (Scalars.stringIn Deferred.supplier v) := by
  unfold Scalars.stringIn
  split
  · exact h.bind (h.label [] _) fun _ => h.throw _
  · exact h.bind (h.label [] _) fun _ => h.throw _
  · exact h.bind (h.label [] _) fun _ => h.throw _
  · exact h.labelValue [] v

theorem stringOut (v : Value) :
    Keeps R (Scalars.stringOut Deferred.supplier v) := by
  unfold Scalars.stringOut
  split
  · exact h.pure _
  · exact h.stringIn v

theorem identifier (v : Value) :
    Keeps R (Scalars.identifier Deferred.supplier v) := by
  unfold Scalars.identifier
  split
  · exact h.labelValue [] _
  · exact h.labelValue [] _
  · exact h.labelValue [] _
  · exact h.bind (h.filledLiteral [] v) fun _ => h.throw _

theorem apply (c : Coercion) (v : Value) :
    Keeps R (Scalars.apply Deferred.supplier c v) := by
  cases c with
  | identity => exact h.pure v
  | label => exact h.labelValue [] v
  | integer => exact h.bind (h.coerceInteger v) fun _ => h.pure _
  | float => exact h.bind (h.coerceFloat v) fun _ => h.pure _
  | truth => exact h.bind (h.isTruthy v) fun _ => h.pure _
  | stringOut => exact h.stringOut v
  | stringIn => exact h.stringIn v
  | identifier => exact h.identifier v
  | constant u => exact h.pure u
  | raising kind message => exact h.throw _

theorem coerced (wrap : Fault → Fault) (c : Coercion) (v : Value) :
    Keeps R (Scalars.guarded wrap (Scalars.apply Deferred.supplier c v)) :=
  h.tryCatch (h.apply c v) fun _ => h.throw _

/-! ### Answers and descriptions -/

section

variable {shown : Value → Action Answer}

theorem ofFault (shows : ∀ v, Keeps R (shown v)) (f : Fault) :
    Keeps R (Answer.ofFault shown f) := by
  unfold Answer.ofFault
  dsimp only
  split
  · exact h.pure _
  · exact h.bind (shows _) fun _ => h.pure _

theorem guardWith (shows : ∀ v, Keeps R (shown v)) {act : Action Answer}
    (acts : Keeps R act) : Keeps R (Answer.guardWith shown act) :=
  h.tryCatch (h.bind acts fun _ => h.pure _) (h.ofFault shows)

end

/-- A datum is shown by its parts, and a part that fails is shown by its fault. -/
theorem answerWithin (n : Nat) (v : Value) :
    Keeps R (Answer.ofWithin Deferred.supplier n v) := by
  induction n generalizing v with
  | zero => exact h.throw _
  | succ n ih =>
    cases v with
    | null | unnamed | bool | int | float | text | bytes | location | foreign | deferred =>
      exact h.pure _
    | tuple tag items => exact h.bind (h.mapM ih _) fun _ => h.pure _
    | config tag name locations args description =>
      exact h.bind (ih _) fun _ => h.bind (ih _) fun _ => h.bind (ih _) fun _ =>
        h.bind (ih _) fun _ => h.pure _
    | list r => exact h.bindGet fun _ => h.bind (h.mapM ih _) fun _ => h.pure _
    | set r => exact h.bindGet fun _ => h.bind (h.mapM (fun _ => ih _) _) fun _ => h.pure _
    | dict r =>
      refine h.bindGet fun _ => h.bind (h.mapM (fun _ => ?_) _) fun _ => h.pure _
      exact h.bind (ih _) fun _ => h.bind (ih _) fun _ => h.pure _
    | named | scalar | wrapper => exact h.bind (h.literal [] _) fun _ => h.pure _
    | argument q =>
      refine h.bind (h.argumentName q) fun _ => h.bind (ih _) fun _ => ?_
      refine h.bind (h.guardWith ih (h.bind (h.type [] q) ih)) fun _ => ?_
      refine h.bind (h.argumentDescription q) fun _ => h.bind (ih _) fun _ => ?_
      refine h.bind (h.argumentHasDefault q) fun _ => h.bind (ih _) fun _ => ?_
      refine h.bind (h.guardWith ih (h.bind (h.argumentDefault q) ih)) fun _ => ?_
      refine h.bind (h.guardWith ih (h.bind (h.required q) fun _ => h.pure _)) fun _ => ?_
      exact h.pure _
    | directive r =>
      exact h.bindGet fun _ => h.bind (ih _) fun _ => h.bind (ih _) fun _ =>
        h.bind (ih _) fun _ => h.bind (ih _) fun _ => h.pure _

theorem answer (v : Value) : Keeps R (Answer.of Deferred.supplier v) :=
  h.bounded fun n => h.answerWithin n v

theorem guard {act : Action Answer} (acts : Keeps R act) :
    Keeps R (Answer.guard Deferred.supplier act) :=
  h.guardWith h.answer acts

theorem attempt {act : Action Answer} (acts : Keeps R act) :
    Keeps R (Answer.attempt Deferred.supplier act) :=
  h.bind (h.guard acts) fun _ => h.pure _

theorem attemptValue {act : Action Value} (acts : Keeps R act) :
    Keeps R (Answer.attemptValue Deferred.supplier act) :=
  h.attempt (h.bind acts h.answer)

theorem attemptText {act : Action String} (acts : Keeps R act) :
    Keeps R (Answer.attemptText Deferred.supplier act) :=
  h.attempt (h.bind acts fun _ => h.pure _)

theorem hashable (v : Value) :
    Keeps R (Description.hashable Deferred.supplier v) :=
  h.attempt (h.bind (h.hash [] v) fun _ => h.pure _)

theorem mapEntries (r : Ref .directive) :
    Keeps R (Description.mapEntries Deferred.supplier r) := by
  refine h.bindGet fun _ => h.bind (h.argumentMap r) fun es => ?_
  exact h.bind (h.mapM (fun _ => h.bind (h.answer _) fun _ => h.pure _) es) fun _ => h.pure _

theorem applicable (r : Ref .directive) (ls : List Location) :
    Keeps R (Description.applicable Deferred.supplier r ls) := by
  induction ls with
  | nil => exact h.pure _
  | cons l ls ih =>
    exact h.bind (h.appliesTo [] r _) fun _ => h.bind ih fun _ => h.pure _

theorem describeArgument (v : Value) :
    Keeps R (Description.ofArgument Deferred.supplier v) := by
  refine h.bind (h.attemptValue (h.pure v)) fun _ => ?_
  refine h.bind (h.attemptText (h.label [] v)) fun _ => ?_
  refine h.bind (h.attemptText (h.literal [] v)) fun _ => ?_
  exact h.bind (h.hashable v) fun _ => h.pure _

/-- To describe a directive, its configuration is built. -/
theorem describeDirective (v : Value) (r : Ref .directive)
    (config : Keeps R (Directives.toConfig r)) :
    Keeps R (Description.ofDirective Deferred.supplier v r) := by
  refine h.bind (h.attemptValue (h.pure v)) fun _ => ?_
  refine h.bind (h.attemptText (h.label [] v)) fun _ => ?_
  refine h.bind (h.attemptText (h.literal [] v)) fun _ => ?_
  refine h.bind (h.attempt (h.mapEntries r)) fun _ => ?_
  refine h.bind (h.attemptValue config) fun _ => ?_
  refine h.bind (h.applicable r _) fun _ => h.bind (h.isSpecified v) fun _ => ?_
  exact h.bind (h.hashable v) fun _ => h.pure _

/-- To describe a type, wrappers over it are built. -/
theorem describeOther (v : Value) (wraps : ∀ w, Keeps R (Types.wrap w v)) :
    Keeps R (Description.ofOther Deferred.supplier v) := by
  have wrappedLabel (w : Wrapper) : Keeps R (Description.wrappedLabel Deferred.supplier w v) :=
    h.bind (wraps w) fun _ => h.labelValue [] _
  simp only [Description.ofOther]
  refine h.bind (h.attemptValue (h.pure v)) fun _ => ?_
  refine h.bind (h.attemptValue (h.labelValue [] v)) fun _ => ?_
  refine h.bind (h.attempt (h.bind (h.isInput [] v) fun _ => h.pure _)) fun _ => ?_
  refine h.bind (h.attemptValue (h.unwrap [] v)) fun _ => ?_
  refine h.bind (h.attemptValue (h.nullable [] v)) fun _ => ?_
  split
  · exact h.pure _
  · refine h.bind (h.attemptValue (wrappedLabel _)) fun _ => ?_
    refine h.bind (h.attemptValue (wrappedLabel _)) fun _ => ?_
    split
    · exact h.pure _
    · exact h.bind (h.attemptValue (h.get v _)) fun _ => h.pure _

theorem describe (v : Value) (config : ∀ r, Keeps R (Directives.toConfig r))
    (wraps : ∀ w, Keeps R (Types.wrap w v)) :
    Keeps R (Description.of Deferred.supplier v) := by
  unfold Description.of
  split
  · exact h.describeDirective _ _ (config _)
  · exact h.describeArgument _
  · exact h.describeOther v wraps

theorem errorParts (kind : FaultKind) (args : List Value) :
    Keeps R (Description.errorParts kind args) := by
  unfold Description.errorParts
  split
  · split
    all_goals first
      | exact h.pure _
      | exact h.throw _
  · split
    all_goals first
      | exact h.pure _
      | exact h.throw _

theorem errorLabel (message : Value) :
    Keeps R (Description.errorLabel message) := by
  unfold Description.errorLabel
  split
  · exact h.pure _
  · exact h.throw _

theorem describeError (kind : FaultKind) (args : List Value) :
    Keeps R (Description.ofError Deferred.supplier kind args) := by
  refine h.bind (h.errorParts kind args) fun parts => ?_
  obtain ⟨message, name?⟩ := parts
  refine h.bind (h.attemptValue (h.errorLabel message)) fun _ => ?_
  refine h.bind (h.answer message) fun _ => ?_
  cases name? with
  | none => exact h.pure _
  | some name => exact h.bind (h.answer name) fun _ => h.pure _

theorem describeLibrary : Keeps R (Description.ofLibrary Deferred.supplier) := by
  refine h.bind (h.mapM (fun c => ?_) _) fun _ => ?_
  · exact h.bind (h.mapM h.answer _) fun _ => h.pure _
  · exact h.bind (h.mapM (fun _ => h.answer _) _) fun _ => h.pure _

/-! ### Release work -/

section

open Release Release.Invocation

variable (args : Invocation.Arguments)

theorem checkData (t : Task) : Keeps R (check t args) := by
  simp only [check]
  split
  · exact h.throwFirst _
  · exact h.throwFirst _
  · generalize t.required.filter _ = missing
    cases missing
    · exact h.pure _
    · exact h.throw _

theorem flag (parameter : String) (standard : Bool) :
    Keeps R (Invocation.flag args parameter standard) := by
  unfold Invocation.flag
  split
  · exact h.pure _
  · exact h.isTruthy _

theorem texts (position : Nat) (vs : List Value) :
    Keeps R (Container.texts position vs) := by
  induction vs generalizing position with
  | nil => exact h.pure _
  | cons v vs ih =>
    simp only [Container.texts]
    split
    · exact h.throw _
    · exact h.bind (ih _) fun _ => h.pure _

theorem joined (v : Value) : Keeps R (Container.joined v) :=
  h.bind (h.tryCatch (h.elements v) fun _ => h.throw _) fun _ =>
    h.bind (h.texts _ _) fun _ => h.pure _

theorem targets (standard : String) :
    Keeps R (Invocation.targets args standard) :=
  h.test (h.isTruthy _) (h.joined _) (h.pure _)

theorem labelIfTruthy (v : Value) :
    Keeps R (Invocation.labelIfTruthy Deferred.supplier v) :=
  h.test (h.isTruthy v) (h.bind (h.label [] v) fun _ => h.pure _)
    (h.pure _)

theorem labels (v : Value) :
    Keeps R (Invocation.labels Deferred.supplier v) :=
  h.test (h.isTruthy v)
    (h.bind (h.elements v) (h.mapM (h.label []))) (h.pure _)

theorem testRun : Keeps R (Invocation.testRun Deferred.supplier args) := by
  refine h.bind (h.targets args _) fun _ => h.bind (h.labelIfTruthy _) fun _ => ?_
  refine h.bind (h.labels _) fun _ => h.bind (h.flag args _ _) fun _ => ?_
  refine h.bind (h.flag args _ _) fun _ => h.bind (h.flag args _ _) fun _ => ?_
  refine h.bind (h.flag args _ _) fun _ => h.bind (h.flag args _ _) fun _ => ?_
  exact h.bind (h.flag args _ _) fun _ => h.bind (h.flag args _ _) fun _ => h.pure _

theorem versionUpdate : Keeps R (Invocation.versionUpdate args) := by
  simp only [Invocation.versionUpdate]
  split
  · exact h.throw _
  · exact h.bind (h.flag args _ _) fun _ => h.bind (h.flag args _ _) fun _ => h.pure _

theorem job (t : Task) : Keeps R (Invocation.job Deferred.supplier t args) := by
  refine h.bind (h.checkData args t) fun _ => ?_
  cases t with
  | build | check => exact h.pure _
  | clean => exact h.bind (h.flag args _ _) fun _ => h.pure _
  | lint | typeCheck =>
    exact h.bind (h.targets args _) fun _ => h.bind (h.flag args _ _) fun _ => h.pure _
  | format => exact h.bind (h.targets args _) fun _ => h.pure _
  | test => exact h.bind (h.testRun args) fun _ => h.pure _
  | updateVersion => exact h.bind (h.versionUpdate args) fun _ => h.pure _

theorem runAlone (shell : Shell) (t : Task) (b : Bench) :
    Keeps R (Invocation.runAlone Deferred.supplier shell t args b) :=
  h.tryCatch (h.bind (h.job args t) fun _ => h.pure _) fun f =>
    h.bind (h.ofFault h.answer f) fun _ => h.pure _

theorem runInTurn (shell : Shell) (ts : List (Task × Invocation.Arguments))
    (b : Bench) : Keeps R (Invocation.runInTurn Deferred.supplier shell ts b) := by
  induction ts generalizing b with
  | nil => exact h.pure _
  | cons p ts ih =>
    obtain ⟨t, args⟩ := p
    refine h.bind (h.runAlone args shell t b) fun result => ?_
    obtain ⟨outcome, b'⟩ := result
    cases outcome with
    | ok a => exact ih b'
    | fault => exact h.pure _

theorem runTask (shell : Shell) (name : String) (b : Bench) :
    Keeps R (Invocation.run Deferred.supplier shell name args b) := by
  unfold Invocation.run
  split
  · exact h.pure _
  · exact h.runInTurn shell _ b

end

/-! ### Parts of requests -/

theorem location (v : Value) :
    Keeps R (Request.location Deferred.supplier v) := by
  unfold Request.location
  split
  · exact h.pure _
  · exact h.bind (h.literal [] v) fun _ => h.throw _

theorem asScalar (v : Value) (operation : String) :
    Keeps R (Request.asScalar v operation) := by
  unfold Request.asScalar
  split
  · exact h.pure _
  · exact h.throw _

theorem specifiedScalar (v : Value) :
    Keeps R (BuiltIn.specifiedScalar Deferred.supplier v) := by
  unfold BuiltIn.specifiedScalar
  split
  · exact h.pure _
  · exact h.bind (h.filled [] v) fun _ => h.throw _

theorem filterM {α : Type} {f : α → Action Bool} (step : ∀ a, Keeps R (f a))
    (as : List α) : Keeps R (as.filterM f) := by
  have filtered (acc : List α) : Keeps R (List.filterAuxM f as acc) := by
    induction as generalizing acc with
    | nil => exact h.pure acc
    | cons a as ih => exact h.bind (step a) fun _ => ih _
  exact h.bind (filtered []) fun _ => h.pure _

end Checked

end DirectiveSchema

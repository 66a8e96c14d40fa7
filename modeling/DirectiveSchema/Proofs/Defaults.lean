import DirectiveSchema.Proofs.Classes
import DirectiveSchema.Proofs.Mirroring

/-!
Defaults of arguments. As long as no run assigns or deletes the flag that tells whether an argument
has a default, it tells so: for the arguments that were constructed, and for all copies of them,
whichever were made of which.
-/
namespace DirectiveSchema

variable {s s' s₁ : Session} {v c t t' : Value} {q q' : Ref .argument}

open Session.KeepsFlags

/-! ### Runs -/

theorem Attains.keeps {α σ : Type} {I : Session → Prop} {carried : σ} {x : StateT σ Action α}
    {post : σ → α → Prop} (h : Attains I carried x post) : Keeps (Upholds I) (x carried) :=
  .intro (fun _ _ _ run holds => (h.of_ok holds run).1) fun _ _ _ run holds => h.of_error holds run

namespace Snapshot

theorem restore_upholds {p : Snapshot} {c : Nat → Bool} (truthful : ∀ q ∈ p.nodes, q.Truthful c) :
    Keeps (Upholds Session.Flagged) (Snapshot.restore Deferred.supplier p) := by
  have restored : Restored c [] p (restoreWith Deferred.supplier p) :=
    Restored.restoreWith p truthful (List.forall_mem_nil _)
  exact Upholds.lasting.bind restored.keeps fun _ => Upholds.lasting.pure _

end Snapshot

namespace Session.KeepsFlags

theorem deepCopy (v : Value) :
    Keeps (Upholds Session.Flagged) (DeepCopy.copy Deferred.supplier v) :=
  Upholds.lasting.boundedPairs fun n =>
    Upholds.lasting.bind (DeepCopy.duplicateWithin n v [] (List.forall_mem_nil _)).keeps fun _ =>
      Upholds.lasting.pure _

theorem storedCopy (v : Value) :
    Keeps (Upholds Session.Flagged) (Snapshot.copy Deferred.supplier v) := by
  intro s holds
  have takes := consulting.checked.take [] v
  cases run : Snapshot.take Deferred.supplier v s with
  | error f s₁ =>
    rw [Snapshot.copy, Action.after_of_error (Action.bind_of_error run)]
    exact (takes.of_error run).flags holds
  | ok p s₁ =>
    obtain ⟨n, met, -, holds₁, shown⟩ := Snapshot.classifying.take holds run
    have restores := Snapshot.restore_upholds fun q => shown.related.truthful List.suffix_rfl
    have same : (Snapshot.copy Deferred.supplier v).after s =
        (Snapshot.restore Deferred.supplier p).after s₁ := by
      simp only [Snapshot.copy, Action.after, Action.bind_of_ok run]
    rw [same]
    exact restores s₁ holds₁

theorem copy (mode : CopyMode) (v : Value) :
    Keeps Session.KeepsFlags (v.copy Deferred.supplier mode) := by
  have custody := Session.KeepsTypes.custody
  refine fun s => ⟨custody.furnishing.copy mode v (fun _ => custody.toBuilding) s, ?_⟩
  cases mode with
  | shallow => exact (shallowCopy v s).flags
  | deep => exact deepCopy v s
  | stored => exact storedCopy v s

/-- Whatever is requested keeps the flags, but for the assignment and the deletion of flags. -/
theorem serving : Serving Session.KeepsFlags (· ≠ "has_default_value") :=
  { consulting with
    bound := fun _ _ => beside rfl rfl
    set := fun v _ new named => ofSet v new named
    delete := fun v _ named => ofDelete v named
    append := ofAppend
    copy := fun mode v _ => copy mode v }

theorem runAll (s : Session) (qs : List Request)
    (named : ∀ r ∈ qs, "has_default_value" ∉ r.alters) : s.KeepsFlags (s.runAll qs).2 := by
  induction qs generalizing s with
  | nil => exact lasting.refl s
  | cons r qs ih =>
    obtain ⟨first, rest⟩ := List.forall_mem_cons.1 named
    refine lasting.trans (serving.run (fun _ _ => beside rfl rfl) s r
      (fun _ => answered.toBuilding) fun key altered => ?_) (ih (s.run r).2 rest)
    rintro rfl
    exact first altered

end Session.KeepsFlags

/-- All built-in arguments tell of their defaults. -/
theorem Session.Flagged.builtIn : BuiltIn.session.Flagged := by
  rintro ⟨i⟩
  match i with
  | 0 | 1 => exact .told rfl
  | i + 2 =>
    rw [Session.argument, Arena.get_of_le (Nat.le_add_left 2 i)]
    exact .of_blank

/-! ### Copies -/

/-- A copy was made of an argument: of what it was when its type had been resolved. -/
structure CopyMade (q q' : Ref .argument) (s s₁ s' : Session) (t t' : Value) : Prop where
  resolved : Arguments.type Deferred.supplier q s = .ok t s₁
  later : s₁.Extends s'
  flag : RepeatsPart (s₁.argument q).hasDefault (s'.argument q').hasDefault
  stored : RepeatsPart (s₁.argument q).default (s'.argument q').default
  known : s'.OverKnown t' (.argument q')
  class_ : t'.isNonNull = t.isNonNull

/-- A datum is a copy of an argument. -/
def IsCopyOf (q : Ref .argument) (s s' : Session) (c : Value) : Prop :=
  ∃ q' s₁ t t', c = .argument q' ∧ CopyMade q q' s s₁ s' t t'

/-- A copy of an argument has its flag. -/
theorem Argument.Flagged.flag_copied {a b : Argument} (h : a.Flagged)
    (flag : RepeatsPart a.hasDefault b.hasDefault) : b.hasDefault = a.hasDefault := by
  cases h with
  | told told => exact (flag.constant told rfl).trans told.symm
  | blank unset =>
    rw [unset, ← Option.not_isSome_iff_eq_none, flag.isSome, unset]
    exact Bool.false_ne_true

theorem RepeatsPart.refl (o : Option Value) : RepeatsPart o o := ⟨rfl, fun same _ => same⟩

/-- An argument is added over a type that is known. -/
theorem CopyMade.new {a : Argument} (resolved : Arguments.type Deferred.supplier q s = .ok t s₁)
    (flag : a.hasDefault = (s₁.argument q).hasDefault)
    (stored : a.default = (s₁.argument q).default)
    (source : a.source = t) (known : a.resolved = Types.kept a.source) :
    CopyMade q ⟨s₁.arguments.size⟩ s s₁ { s₁ with arguments := s₁.arguments.add a } t t := by
  have cell : ({ s₁ with arguments := s₁.arguments.add a } : Session).argument ⟨s₁.arguments.size⟩ =
      a := Arena.get_add_self s₁.arguments a
  refine ⟨resolved, Session.Extends.growth.newArgument a s₁, ?_, ?_, ?_, rfl⟩
  · rw [cell, flag]
    exact .refl _
  · rw [cell, stored]
    exact .refl _
  · exact source ▸ s₁.overKnown_newArgument known

/-- An argument that was added before is filled, over a type that is known. -/
theorem CopyMade.fill {a : Argument} {u : Session}
    (resolved : Arguments.type Deferred.supplier q s = .ok t s₁) (later : s₁.Extends u)
    (live : q'.index < u.arguments.size) (new : s₁.arguments.size ≤ q'.index)
    (flag : RepeatsPart (s₁.argument q).hasDefault a.hasDefault)
    (stored : RepeatsPart (s₁.argument q).default a.default)
    (known : a.resolved = Types.kept a.source) (class_ : a.source.isNonNull = t.isNonNull) :
    CopyMade q q' s s₁ (u.putArgument q' a) t a.source := by
  have cell : (u.putArgument q' a).argument q' = a := Arena.get_put_self _ _ live
  refine ⟨resolved, ?_, cell.symm ▸ flag, cell.symm ▸ stored, Session.overKnown_argument live known,
    class_⟩
  exact { later with arguments := later.arguments.put fun old => absurd old (Nat.not_lt.2 new) }

theorem shallowCopy_isCopyOf
    (run : (Value.argument q).shallowCopy Deferred.supplier s = .ok c s') : IsCopyOf q s s' c := by
  obtain ⟨t, s₁, resolved, run⟩ := Action.ok_of_bind run
  cases run
  exact ⟨_, s₁, t, t, rfl, .new resolved rfl rfl rfl rfl⟩

theorem deepCopy_isCopyOf (holds : s.Flagged)
    (run : DeepCopy.copy Deferred.supplier (.argument q) s = .ok c s') : IsCopyOf q s s' c := by
  have furnishing := Session.Extends.furnishing
  obtain ⟨n, -, bound⟩ := Action.boundedPairs_succ (Value.argument q).depth
    (fun n => do return (← (DeepCopy.copyWithin Deferred.supplier n (.argument q)).run []).1 :
      Nat → Action Value) s
  rw [DeepCopy.copy, bound] at run
  obtain ⟨⟨copied, memo⟩, s₀, run, returned⟩ := Action.ok_of_bind run
  cases returned
  have parts := DeepCopy.duplicateWithin n
  have extends_ (x : Value) := furnishing.copyWithin n x
  change DeepCopy.ofObject Deferred.supplier _ (.argument q) [] s = _ at run
  obtain ⟨t, _, s₁, lifted, run⟩ := Action.ok_of_bindWith run
  obtain ⟨_, _, s₂, looked, run⟩ := Action.ok_of_bindWith run
  obtain ⟨new, _, s₃, made, run⟩ := Action.ok_of_bindWith run
  obtain ⟨_, _, s₄, remembered, run⟩ := Action.ok_of_bindWith run
  obtain ⟨name, _, s₅, copiedName, run⟩ := Action.ok_of_bindWith run
  obtain ⟨description, _, s₆, copiedDescription, run⟩ := Action.ok_of_bindWith run
  obtain ⟨hasDefault, _, s₇, copiedHasDefault, run⟩ := Action.ok_of_bindWith run
  obtain ⟨default, _, s₈, copiedDefault, run⟩ := Action.ok_of_bindWith run
  obtain ⟨type, _, s₉, copiedType, run⟩ := Action.ok_of_bindWith run
  obtain ⟨extra, _, s₁₀, copiedExtra, run⟩ := Action.ok_of_bindWith run
  cases run
  cases made
  cases remembered
  cases looked
  obtain ⟨resolved, rfl⟩ := Action.ok_of_lift lifted
  have part (x : Option Value) := furnishing.copyPart extends_ x
  have memo₀ : DeepCopy.Memo.Repeats [(Value.argument q, Value.argument ⟨s₁.arguments.size⟩)] :=
    List.forall_mem_singleton.2 ⟨fun constant => (by cases constant), rfl⟩
  have holds₁ := ((consulting.checked.type [] q).of_ok resolved).flags holds
  have holds₃ : Session.Flagged { s₁ with arguments := s₁.arguments.add .blank } :=
    holds₁.addArgument .of_blank
  obtain ⟨holds₅, memo₅, -⟩ := (DeepCopy.duplicatePart parts memo₀ _).of_ok holds₃ copiedName
  obtain ⟨holds₆, memo₆, -⟩ := (DeepCopy.duplicatePart parts memo₅ _).of_ok holds₅ copiedDescription
  obtain ⟨holds₇, memo₇, flag⟩ :=
    (DeepCopy.duplicatePart parts memo₆ _).of_ok holds₆ copiedHasDefault
  obtain ⟨holds₈, memo₈, stored⟩ :=
    (DeepCopy.duplicatePart parts memo₇ _).of_ok holds₇ copiedDefault
  obtain ⟨-, -, repeated⟩ := (parts t _ memo₈).of_ok holds₈ copiedType
  have filled := ((part _ _).of_ok copiedName).trans <|
    ((part _ _).of_ok copiedDescription).trans <| ((part _ _).of_ok copiedHasDefault).trans <|
      ((part _ _).of_ok copiedDefault).trans <| ((extends_ t _).of_ok copiedType).trans <|
        (furnishing.copyAttributes extends_ _ _).of_ok copiedExtra
  have live : s₁.arguments.size < s₁₀.arguments.size := Nat.lt_of_lt_of_le
    (Nat.lt_of_lt_of_eq (Nat.lt_succ_self _) (Arena.size_add _ _).symm) filled.arguments.size
  have later := (Session.Extends.growth.newArgument .blank s₁).trans filled
  exact ⟨_, s₁, t, type, rfl, .fill resolved later live (Nat.le_refl _) flag stored rfl
    repeated.nonNull⟩

/-- The first picture is that of an argument: it shows its default, its flag, and the class of its
type. A type that was met before is numbered in what is pictured before it. -/
inductive Snapshot.ShowsArgument (q : Ref .argument) (s₁ : Session) (t : Value) (c : Nat → Bool) :
    Snapshot → Prop where
  | argument {name description hasDefault default : Option Snapshot} {type : Snapshot}
      {extra : List (String × Snapshot)} :
    (∀ p ∈ (Snapshot.argument 0 name description hasDefault default type extra).nodes,
      p.Truthful c) →
    PartOf (s₁.argument q).hasDefault hasDefault → PartOf (s₁.argument q).default default →
    type.shows c = t.isNonNull →
    (∀ k, type = .seen k → k = 0 ∨ ∃ p ∈ nodesOfPart name ++ nodesOfPart description ++
      nodesOfPart hasDefault ++ nodesOfPart default, p.slot? = some (.new k)) →
      ShowsArgument q s₁ t c (.argument 0 name description hasDefault default type extra)

theorem take_argument {p : Snapshot} (holds : s.Flagged)
    (run : Snapshot.take Deferred.supplier (.argument q) s = .ok p s') :
    ∃ t s₁ c, Arguments.type Deferred.supplier q s = .ok t s₁ ∧ s₁.Extends s' ∧ s'.Flagged ∧
      Snapshot.ShowsArgument q s₁ t c p := by
  have checked := Session.Extends.furnishing.checked
  have classifying := Snapshot.classifying
  obtain ⟨n, seen', run, holds', whole⟩ := classifying.take holds run
  obtain ⟨m, -, bound⟩ := Action.boundedPairs_succ (Value.argument q).depth
    (fun m => Snapshot.takeRound Deferred.supplier (Snapshot.takeWithin Deferred.supplier n) m
      (.argument q) []) s
  change Action.boundedPairs (Value.argument q).depth
    (fun m => Snapshot.takeRound Deferred.supplier (Snapshot.takeWithin Deferred.supplier n) m
      (.argument q) []) s = _ at run
  rw [bound] at run
  change Snapshot.ofObject Deferred.supplier _ _ (.argument q) [] s = _ at run
  have types := classifying.takeWithin n
  have parts := classifying.takeRound types m
  have extendTypes (x : Value) := checked.takeWithin [] n x
  have extendParts (x : Value) := checked.takeRound [] extendTypes m x
  obtain ⟨t, _, s₁, lifted, run⟩ := Action.ok_of_bindWith run
  obtain ⟨_, _, s₂, looked, run⟩ := Action.ok_of_bindWith run
  obtain ⟨k, _, s₃, entered, run⟩ := Action.ok_of_bindWith run
  obtain ⟨name, seen₁, s₄, takenName, run⟩ := Action.ok_of_bindWith run
  obtain ⟨description, seen₂, s₅, takenDescription, run⟩ := Action.ok_of_bindWith run
  obtain ⟨hasDefault, seen₃, s₆, takenHasDefault, run⟩ := Action.ok_of_bindWith run
  obtain ⟨default, seen₄, s₇, takenDefault, run⟩ := Action.ok_of_bindWith run
  obtain ⟨type, seen₅, s₈, takenType, run⟩ := Action.ok_of_bindWith run
  obtain ⟨extra, seen₆, s₉, takenExtra, run⟩ := Action.ok_of_bindWith run
  cases run
  cases entered
  cases looked
  obtain ⟨resolved, rfl⟩ := Action.ok_of_lift lifted
  have holds₁ := ((consulting.checked.type [] q).of_ok resolved).flags holds
  have fresh : ∀ x ∈ [Value.argument q], x.isConstant = false := List.forall_mem_singleton.2 rfl
  obtain ⟨holds₄, h₁, -⟩ := (classifying.takePart parts fresh _).of_ok holds₁ takenName
  obtain ⟨holds₅, h₂, -⟩ := (classifying.takePart parts h₁.objects _).of_ok holds₄ takenDescription
  obtain ⟨holds₆, h₃, flag⟩ :=
    (classifying.takePart parts h₂.objects _).of_ok holds₅ takenHasDefault
  obtain ⟨holds₇, h₄, stored⟩ := (classifying.takePart parts h₃.objects _).of_ok holds₆ takenDefault
  obtain ⟨holds₈, h₅, evokes⟩ := (types t _ h₄.objects).of_ok holds₇ takenType
  obtain ⟨-, h₆⟩ := (classifying.takeAttributes parts h₅.objects _).of_ok holds₈ takenExtra
  have part (x : Option Value) := checked.picturePart extendParts x
  have later := ((part _ _).of_ok takenName).trans <| ((part _ _).of_ok takenDescription).trans <|
    ((part _ _).of_ok takenHasDefault).trans <| ((part _ _).of_ok takenDefault).trans <|
      ((extendTypes t _).of_ok takenType).trans <|
        (checked.pictureAttributes extendParts _ _).of_ok takenExtra
  refine ⟨t, s₁, Snapshot.isNonNullAt seen', resolved, later, holds', .argument
    (fun p => whole.related.truthful List.suffix_rfl) flag stored (evokes.nonNull h₆.later)
      fun k same => ?_⟩
  rcases k.eq_zero_or_pos with first | more
  · exact .inl first
  · exact .inr ((((h₁.related.append h₂.related).append h₃.related).append h₄.related).all more
      (evokes.met same))

/-- What stands for itself in a part is restored as it is. -/
theorem Snapshot.PartOf.repeats {o x : Option Value} {p : Option Snapshot} (h : PartOf o p)
    (isSome : x.isSome = p.isSome) (atom : ∀ v, p = some (.atom v) → x = some v) :
    RepeatsPart o x :=
  ⟨isSome.trans h.1.symm, fun {v} same constant => atom v (h.2 v same constant)⟩

theorem storedCopy_isCopyOf (holds : s.Flagged)
    (run : Snapshot.copy Deferred.supplier (.argument q) s = .ok c s') : IsCopyOf q s s' c := by
  have furnishing := Session.Extends.furnishing
  have building := Session.Extends.growth.toBuilding
  obtain ⟨p, u, taken, run⟩ := Action.ok_of_bind run
  obtain ⟨t, s₁, classes, resolved, later, holds', shows⟩ := take_argument holds taken
  obtain ⟨⟨made, table⟩, s₀, run, returned⟩ := Action.ok_of_bind run
  cases returned
  cases shows with
  | @argument name description hasDefault default type extra truthful flag stored class_ numbered =>
    obtain ⟨top, rest⟩ := List.forall_mem_cons.1 truthful
    obtain ⟨⟨⟨⟨⟨hn, hd⟩, hf⟩, hs⟩, ht⟩, he⟩ := by simpa only [List.forall_mem_append] using rest
    obtain ⟨r, x, s₂, s₃, left, new, build, rfl, rfl⟩ := Snapshot.filled run
    cases new
    obtain ⟨name', table₁, s₄, restoredName, build⟩ := Action.ok_of_bindWith build
    obtain ⟨description', table₂, s₅, restoredDescription, build⟩ := Action.ok_of_bindWith build
    obtain ⟨hasDefault', table₃, s₆, restoredHasDefault, build⟩ := Action.ok_of_bindWith build
    obtain ⟨default', table₄, s₇, restoredDefault, build⟩ := Action.ok_of_bindWith build
    obtain ⟨type', _, s₈, restoredType, build⟩ := Action.ok_of_bindWith build
    obtain ⟨extra', _, s₉, restoredExtra, build⟩ := Action.ok_of_bindWith build
    cases build
    have first : Snapshot.Fits classes [(0, Value.argument ⟨u.arguments.size⟩)] :=
      List.forall_mem_singleton.2 (top.new rfl).symm
    have holds₂ : Session.Flagged { u with arguments := u.arguments.add .blank } :=
      holds'.addArgument .of_blank
    obtain ⟨holds₄, tab₁, -⟩ :=
      (Snapshot.Restored.restorePart name hn first).of_ok holds₂ restoredName
    obtain ⟨holds₅, tab₂, -⟩ :=
      (Snapshot.Restored.restorePart description hd tab₁.fits).of_ok holds₄ restoredDescription
    obtain ⟨holds₆, tab₃, flag'⟩ :=
      (Snapshot.Restored.restorePart hasDefault hf tab₂.fits).of_ok holds₅ restoredHasDefault
    obtain ⟨holds₇, tab₄, stored'⟩ :=
      (Snapshot.Restored.restorePart default hs tab₃.fits).of_ok holds₆ restoredDefault
    obtain ⟨-, -, yields⟩ :=
      (Snapshot.Restored.restoreWith type ht tab₄.fits).of_ok holds₇ restoredType
    have met (k : Nat) (same : type = .seen k) : k ∈ table₄.map Prod.fst := by
      have parts := ((tab₁.append tab₂).append tab₃).append tab₄
      rcases numbered k same with rfl | ⟨p, among, slot⟩
      · exact parts.stays List.mem_cons_self
      · exact parts.numbered among slot
    have part (x : Option Snapshot) := furnishing.restorePart building x
    have filled := ((part _ _).of_ok restoredName).trans <|
      ((part _ _).of_ok restoredDescription).trans <|
        ((part _ _).of_ok restoredHasDefault).trans <| ((part _ _).of_ok restoredDefault).trans <|
          ((furnishing.restoreWith building type _).of_ok restoredType).trans <|
            (furnishing.restoreAttributes building extra _).of_ok restoredExtra
    have live : u.arguments.size < s₃.arguments.size := Nat.lt_of_lt_of_le
      (Nat.lt_of_lt_of_eq (Nat.lt_succ_self _) (Arena.size_add _ _).symm) filled.arguments.size
    have later' := later.trans ((Session.Extends.growth.newArgument .blank u).trans filled)
    exact ⟨_, s₁, t, type', rfl, .fill resolved later' live later.arguments.size
      (flag.repeats flag'.1 flag'.2) (stored.repeats stored'.1 stored'.2) rfl
      ((yields.nonNull met).trans class_)⟩

/-- A copy of an argument is one of what it was when its type had been resolved. -/
theorem copy_isCopyOf {mode : CopyMode} (holds : s.Flagged)
    (run : (Value.argument q).copy Deferred.supplier mode s = .ok c s') : IsCopyOf q s s' c := by
  cases mode with
  | shallow => exact shallowCopy_isCopyOf run
  | deep => exact deepCopy_isCopyOf holds run
  | stored => exact storedCopy_isCopyOf holds run

/-! ### Readings -/

/-- Reads an attribute of an argument. -/
def Ref.read (q : Ref .argument) (key : String) : Action Value :=
  Access.get Deferred.supplier (.argument q) key

theorem Ref.read_flag {o : Option Value} (q : Ref .argument) (h : (s.argument q).hasDefault = o) :
    q.read "has_default_value" s =
      o.elim (.error (.noAttribute "Argument" "has_default_value") s) fun v => .ok v s := by
  have read : q.read "has_default_value" s =
      Arguments.present "Argument" "has_default_value" (s.argument q).hasDefault s := rfl
  rw [read, h]
  cases o <;> rfl

theorem Ref.outcome_flag {o : Option Value} (q : Ref .argument)
    (h : (s.argument q).hasDefault = o) : (q.read "has_default_value").outcome s =
      o.elim (.error (.noAttribute "Argument" "has_default_value")) .ok := by
  rw [Action.outcome, q.read_flag h]
  cases o <;> rfl

theorem Ref.read_default (q : Ref .argument) (s : Session) : q.read "default_value" s =
    (s.argument q).default.elim (.error .noDefault s) fun v => .ok v s := by
  have read : q.read "default_value" s = Arguments.default q s := rfl
  rw [read, Arguments.default, Action.get_bind]
  cases (s.argument q).default <;> rfl

/-- What is required follows from the type and from the default that is stored by then. -/
theorem Ref.read_required (resolved : q.read "type" s = .ok t s₁) : q.read "required" s =
    .ok (.bool (t.isNonNull && (s₁.argument q).default.isNone)) s₁ := by
  have required : Arguments.required Deferred.supplier q s =
      .ok (t.isNonNull && (s₁.argument q).default.isNone) s₁ :=
    (Action.bind_of_ok resolved).trans rfl
  exact (Action.bind_of_ok required).trans rfl

/-- The flag of an argument is set if and only if its default can be read, which may be null; and an
argument whose type resolves is required if and only if that is a non-null type and the flag is not
set. -/
structure Session.TellsDefault (s : Session) (q : Ref .argument) : Prop where
  set : q.read "has_default_value" s = .ok (.bool true) s ↔ ∃ v, q.read "default_value" s = .ok v s
  unset : (∀ v, q.read "default_value" s ≠ .ok v s) →
    (q.read "default_value").faultKind? s = some .access
  required {t : Value} {s₁ : Session} : q.read "type" s = .ok t s₁ →
    ∃ b, q.read "required" s = .ok (.bool b) s₁ ∧
      (b = true ↔ t.isNonNull = true ∧ q.read "has_default_value" s = .ok (.bool false) s)

/-- An argument has the flag of another one, and is required if that was before it was copied. It
still is afterwards, unless the type is null, which is no type and may be asked for again. -/
structure Session.SharesDefault (s s' : Session) (q q' : Ref .argument) : Prop where
  before : (q'.read "has_default_value").outcome s' = (q.read "has_default_value").outcome s
  flag : (q'.read "has_default_value").outcome s' = (q.read "has_default_value").outcome s'
  required : ∃ b, (q.read "required").result? s = some (.bool b) ∧
    (q'.read "required").result? s' = some (.bool b)
  settled {t : Value} : (q.read "type").result? s = some t → t ≠ .null →
    (q'.read "required").result? s' = (q.read "required").result? s'

/-- The type of an argument that is over null. -/
theorem type_of_null (based : (s.argument q).source = .null)
    (unresolved : (s.argument q).resolved = none)
    (run : Arguments.type Deferred.supplier q s = .ok t s₁) : t = .null := by
  have answered : Types.demand Deferred.supplier (s.argument q).source s = .ok .null s := by
    rw [based]
    rfl
  rw [Arguments.type_of_demand unresolved answered] at run
  cases run
  rfl

theorem Session.Flagged.tellsDefault (holds : s.Flagged) (q : Ref .argument) :
    s.TellsDefault q := by
  have default := q.read_default s
  refine ⟨?_, fun unread => ?_, fun {t s₁} resolved => ?_⟩
  · rw [default]
    cases holds q with
    | told flag =>
      rw [q.read_flag flag]
      cases (s.argument q).default with
      | none =>
        refine ⟨fun set => (by cases set), ?_⟩
        rintro ⟨v, read⟩
        cases read
      | some v => exact ⟨fun _ => ⟨v, rfl⟩, fun _ => rfl⟩
    | blank unset empty =>
      rw [q.read_flag unset, empty]
      refine ⟨fun set => (by cases set), ?_⟩
      rintro ⟨v, read⟩
      cases read
  · rw [Action.faultKind?, default]
    cases stored : (s.argument q).default with
    | none => rfl
    | some v => exact absurd (by rw [default, stored]; rfl) (unread v)
  · refine ⟨_, Ref.read_required resolved, ?_⟩
    rw [Bool.and_eq_true]
    refine and_congr_right fun nonNull => ?_
    cases holds q with
    | told flag =>
      have live : q.index < s.arguments.size := by
        by_contra dead
        rw [Session.argument, Arena.get_of_le (Nat.le_of_not_lt dead)] at flag
        cases flag
      have later := (Session.Extends.furnishing.checked.type [] q).of_ok resolved
      have settles : (s.argument q).Settles (s₁.argument q) := later.arguments.cell live
      rw [q.read_flag flag, settles.default]
      cases (s.argument q).default with
      | none => exact ⟨fun _ => rfl, fun _ => rfl⟩
      | some v => exact ⟨fun none => (by cases none), fun unset => (by cases unset)⟩
    | blank _ _ based unresolved =>
      obtain rfl := type_of_null based unresolved resolved
      cases nonNull

/-- A type that is not null is kept. -/
theorem resolved_of_type (live : q.index < s₁.arguments.size)
    (run : Arguments.type Deferred.supplier q s = .ok t s₁) (type : t ≠ .null) :
    (s₁.argument q).resolved = some t := by
  cases known : (s.argument q).resolved with
  | some x =>
    rw [Arguments.type_of_resolved known] at run
    cases run
    exact known
  | none =>
    cases answered : Types.demand Deferred.supplier (s.argument q).source s with
    | error f u =>
      rw [Arguments.type_of_fault known answered] at run
      cases run
    | ok x u =>
      rw [Arguments.type_of_demand known answered] at run
      cases run
      have cell : ((u.putArgument q { u.argument q with resolved := Types.kept t }).argument q) =
          { u.argument q with resolved := Types.kept t } :=
        Arena.get_put_self _ _ (Nat.lt_of_lt_of_eq live (Arena.size_put _ _ _))
      rw [cell]
      exact Types.kept_of_not_isNull (by cases t <;> first | rfl | exact absurd rfl type)

theorem RepeatsPart.isNone {o o' : Option Value} (h : RepeatsPart o o') : o'.isNone = o.isNone := by
  rw [← Option.not_isSome, ← Option.not_isSome, h.isSome]

theorem CopyMade.sharesDefault (h : CopyMade q q' s s₁ s' t t') (holds : s₁.Flagged)
    (live : q.index < s.arguments.size) : s.SharesDefault s' q q' := by
  have first := (Session.Extends.furnishing.checked.type [] q).of_ok h.resolved
  have live₁ := Nat.lt_of_lt_of_le live first.arguments.size
  have now : (s.argument q).Settles (s₁.argument q) := first.arguments.cell live
  have then_ : (s₁.argument q).Settles (s'.argument q) := h.later.arguments.cell live₁
  have copied := q'.outcome_flag ((holds q).flag_copied h.flag)
  have required : (q'.read "required").result? s' =
      some (.bool (t.isNonNull && (s₁.argument q).default.isNone)) := by
    have read := Ref.read_required (h.known.type (.refl s') Deferred.supplier)
    rw [h.class_, h.stored.isNone] at read
    exact Action.result?_of_ok read
  refine ⟨?_, ?_, ?_, fun {t₀} typed type => ?_⟩
  · rw [copied, q.outcome_flag now.hasDefault.symm]
  · rw [copied, q.outcome_flag then_.hasDefault]
  · exact ⟨_, Action.result?_of_ok (Ref.read_required h.resolved), required⟩
  · have resolved : q.read "type" s = .ok t s₁ := h.resolved
    obtain rfl : t = t₀ := by simpa [Action.result?, resolved] using typed
    have known := then_.resolved (resolved_of_type live₁ h.resolved type)
    have read := Ref.read_required (q := q) (Arguments.type_of_resolved known)
    rw [then_.default] at read
    rw [required, Action.result?_of_ok read]

/-- In every run that neither assigns nor deletes flags, each argument tells of its default, and so
does each copy that is made of it in one of the three ways. -/
theorem arguments_tell_of_defaults (qs : List Request)
    (named : ∀ r ∈ qs, "has_default_value" ∉ r.alters) (q : Ref .argument) :
    let s := (BuiltIn.session.runAll qs).2
    s.TellsDefault q ∧ ∀ mode c s', q.index < s.arguments.size →
      (Value.argument q).copy Deferred.supplier mode s = .ok c s' →
        ∃ q', c = .argument q' ∧ s.SharesDefault s' q q' := by
  intro s
  have holds : s.Flagged := (runAll BuiltIn.session qs named).flags .builtIn
  refine ⟨holds.tellsDefault q, fun mode c s' live run => ?_⟩
  obtain ⟨q', s₁, t, t', rfl, made⟩ := copy_isCopyOf holds run
  exact ⟨q', rfl, made.sharesDefault
    (((consulting.checked.type [] q).of_ok made.resolved).flags holds) live⟩

/-- An argument without a default and one whose default is null, both over non-null types; one is
named anew, resolved and compared, and a stored copy of it is copied deeply. -/
def sampleDefaults : List Request :=
  let type (t : TypeExpression) : TypeExpression := .wrap .nonNull (.deferred "z" t)
  [.declare "a" (.argument (some (.text "a")) (some (type (.ref "Int"))) none none),
    .declare "b" (.argument (some (.text "b")) (some (type (.ref "Int"))) (some .null) none),
    .set (.ref "a") "name" (.text "c"), .get (.ref "a") "type" none,
    .equal (.ref "a") (.ref "b"), .copy (.ref "a") .stored (some "d"),
    .copy (.ref "d") .deep (some "e")]

theorem sample_arguments_tell_of_defaults :
    let s := (BuiltIn.session.runAll sampleDefaults).2
    (∀ r ∈ sampleDefaults, "has_default_value" ∉ r.alters) ∧ s.TellsDefault ⟨3⟩ ∧
      (∃ s' q', (Value.argument ⟨5⟩).copy Deferred.supplier .stored s = .ok (.argument q') s' ∧
        s.SharesDefault s' ⟨5⟩ q') ∧
      ((Ref.read ⟨3⟩ "default_value").result? s).any (Value.same .null) = true ∧
      ((Ref.read ⟨5⟩ "required").result? s).any (Value.same (.bool true)) = true := by
  intro s
  have named : ∀ r ∈ sampleDefaults, "has_default_value" ∉ r.alters := by decide
  have live : 5 < s.arguments.size := by decide +kernel
  have copied :
      (((Value.argument ⟨5⟩).copy Deferred.supplier .stored).result? s).isSome = true := by
    decide +kernel
  obtain ⟨c, result⟩ := Option.isSome_iff_exists.1 copied
  obtain ⟨s', run⟩ := Action.ok_of_result? result
  obtain ⟨q', rfl, shares⟩ := (arguments_tell_of_defaults sampleDefaults named ⟨5⟩).2 _ _ _ live run
  exact ⟨named, (arguments_tell_of_defaults sampleDefaults named ⟨3⟩).1, ⟨s', q', run, shares⟩,
    by decide +kernel, by decide +kernel⟩

end DirectiveSchema

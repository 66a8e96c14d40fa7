import DirectiveSchema.Proofs.VersionFormat
import Mathlib.Data.String.Basic

/-!
The order by which updates are let through. Texts of versions are compared, and these compare
number by number like the versions, but the numbers digit by digit and the stages letter by letter.
So the order is that of the versions as long as numbers have as many digits as those that they are
compared with; but ten goes before nine, and a release goes before all the stages that led to it.
-/
namespace DirectiveSchema.Release

open VersionText

/-! ### Texts part by part -/

/-- Two texts that start with characters of one kind are compared by these first, if what follows
starts with lower characters. -/
theorem append_lt_append_iff {kind : Char → Prop} {ds es rest rest' : List Char}
    (hds : ∀ c ∈ ds, kind c) (hes : ∀ c ∈ es, kind c)
    (lower : ∀ c ∈ rest.head?, ∀ d, kind d → c < d) (lower' : ∀ c ∈ rest'.head?, ∀ d, kind d → c < d) :
    ds ++ rest < es ++ rest' ↔ ds < es ∨ ds = es ∧ rest < rest' := by
  induction ds generalizing es with
  | nil =>
    cases es with
    | nil => simp
    | cons e es =>
      have he : kind e := hes e List.mem_cons_self
      cases rest with
      | nil => simp
      | cons c rest => simp [List.cons_lt_cons_iff, lower c rfl e he]
  | cons d ds ih =>
    have hd : kind d := hds d List.mem_cons_self
    cases es with
    | nil =>
      cases rest' with
      | nil => simp
      | cons c rest' =>
        have above := lower' c rfl d hd
        simp [List.cons_lt_cons_iff, above.le, above.ne']
    | cons e es =>
      have next := @ih es (fun c hc => hds c (List.mem_cons_of_mem d hc))
        (fun c hc => hes c (List.mem_cons_of_mem e hc))
      simp only [List.cons_append, List.cons_lt_cons_iff, next, List.cons.injEq]
      grind

theorem le_of_isDecimalDigit {c : Char} (h : Text.isDecimalDigit c = true) : 0x30 ≤ c.toNat := by
  have least : ∀ z ∈ Text.zeroDigits, 0x30 ≤ z := by decide
  obtain ⟨n, value⟩ := Option.isSome_iff_exists.1 h
  obtain ⟨z, found, -⟩ := Option.map_eq_some_iff.1 value
  have from_z : z ≤ c.toNat := by
    have := List.find?_some found
    simp only [Bool.and_eq_true, decide_eq_true_eq] at this
    exact this.1
  exact Nat.le_trans (least z (List.mem_of_find?_eq_some found)) from_z

theorem lt_of_isDecimalDigit {c d : Char} (low : c.toNat < 0x30)
    (digit : Text.isDecimalDigit d = true) : c < d :=
  Nat.lt_of_lt_of_le low (le_of_isDecimalDigit digit)

namespace VersionText

/-- The word for a stage, as it is written. -/
def wordChars : Option (StageWord × DigitRun) → List Char
  | none => []
  | some (w, _) => w.chars

/-- The number of a stage, as it is written. -/
def numberChars : Option (StageWord × DigitRun) → List Char
  | none => []
  | some (_, ds) => ds.chars

/-- What the texts of versions are compared by, the first difference first. -/
def textKey (t : VersionText) (feed : Bool) : List (List Char) :=
  [t.major.chars, t.minor.chars, t.patch.chars, wordChars t.stage, numberChars t.stage, ending feed]

theorem lower_ending (feed : Bool) :
    ∀ c ∈ (ending feed).head?, ∀ d, Text.isDecimalDigit d = true → c < d := by
  intro c hc d hd
  cases feed with
  | false => cases hc
  | true =>
    cases hc
    exact lt_of_isDecimalDigit (by decide) hd

theorem lower_point (cs : List Char) :
    ∀ c ∈ ('.' :: cs).head?, ∀ d, Text.isDecimalDigit d = true → c < d := by
  rintro c ⟨⟩ d hd
  exact lt_of_isDecimalDigit (by decide) hd

theorem digits_lt_iff {ds es : DigitRun} {rest rest' : List Char}
    (lower : ∀ c ∈ rest.head?, ∀ d, Text.isDecimalDigit d = true → c < d)
    (lower' : ∀ c ∈ rest'.head?, ∀ d, Text.isDecimalDigit d = true → c < d) :
    ds.chars ++ rest < es.chars ++ rest' ↔
      ds.chars < es.chars ∨ ds.chars = es.chars ∧ rest < rest' :=
  append_lt_append_iff ds.decimal es.decimal lower lower'

/-- No word for a stage is the beginning of another. -/
theorem word_lt_iff {w x : StageWord} {rest rest' : List Char} :
    w.chars ++ rest < x.chars ++ rest' ↔ w.chars < x.chars ∨ w.chars = x.chars ∧ rest < rest' := by
  cases w <;> cases x <;> simp [StageWord.chars, List.cons_lt_cons_iff]

theorem stage_lt_iff {s s' : Option (StageWord × DigitRun)} {feed feed' : Bool} :
    stageChars s ++ ending feed < stageChars s' ++ ending feed' ↔
      [wordChars s, numberChars s, ending feed] < [wordChars s', numberChars s', ending feed'] := by
  have point (feed : Bool) (cs : List Char) : ending feed < '.' :: cs := by
    cases feed <;> simp [ending, List.cons_lt_cons_iff]
  have word (w : StageWord) : [] < w.chars := by cases w <;> simp [StageWord.chars]
  cases s with
  | none =>
    cases s' with
    | none => simp [stageChars, wordChars, numberChars, List.cons_lt_cons_iff]
    | some s' => simp [stageChars, wordChars, List.cons_lt_cons_iff, point, word]
  | some s =>
    cases s' with
    | none =>
      have after := point feed' (s.1.chars ++ (s.2.chars ++ ending feed))
      have nonempty : s.1.chars ≠ [] := (word s.1).ne'
      simp [stageChars, wordChars, List.cons_lt_cons_iff, after.le, nonempty]
    | some s' =>
      simp [stageChars, wordChars, numberChars, List.cons_lt_cons_iff, word_lt_iff,
        digits_lt_iff (lower_ending feed) (lower_ending feed')]

/-- The texts of versions are compared part by part. -/
theorem text_lt_iff {t u : VersionText} {feed feed' : Bool} :
    t.text feed < u.text feed' ↔ t.textKey feed < u.textKey feed' := by
  have tail (s : Option (StageWord × DigitRun)) (feed : Bool) :
      ∀ c ∈ (stageChars s ++ ending feed).head?, ∀ d, Text.isDecimalDigit d = true → c < d := by
    cases s with
    | none => exact lower_ending feed
    | some s => exact lower_point _
  rw [String.lt_iff_toList_lt, text, text, String.toList_ofList, String.toList_ofList]
  simp only [chars, List.append_assoc, List.cons_append, digits_lt_iff (lower_point _) (lower_point _),
    digits_lt_iff (tail _ _) (tail _ _), List.cons_lt_cons_iff, stage_lt_iff, textKey]
  simp

end VersionText

/-! ### Where the two orders agree -/

/-- Two numbers are written by ASCII digits, as many in the one as in the other. -/
structure DigitRun.Aligned (ds es : DigitRun) : Prop where
  ascii : ∀ c ∈ ds.chars, c.isDigit = true
  ascii' : ∀ c ∈ es.chars, c.isDigit = true
  length : ds.chars.length = es.chars.length

/-- The words for two stages go in the order of the stages: all do but "dev", which is to go before
"a" and "b". -/
def StageWord.Aligned : StageWord → StageWord → Prop
  | dev, a | dev, b | a, dev | b, dev => False
  | _, _ => True

namespace VersionText

/-- Two versions are compared rightly by their texts. -/
structure Aligned (t u : VersionText) : Prop where
  major : t.major.Aligned u.major
  minor : t.minor.Aligned u.minor
  patch : t.patch.Aligned u.patch
  stage : match t.stage, u.stage with
    | none, none => True
    | some (w, ds), some (x, es) => w.Aligned x ∧ ds.Aligned es
    | _, _ => False

end VersionText

theorem digitValue_le_nine {c : Char} (h : c.isDigit = true) :
    (Text.digitValue? c).getD 0 = c.toNat - 0x30 ∧ 0x30 ≤ c.toNat ∧ c.toNat ≤ 0x39 := by
  refine ⟨by rw [Text.digitValue?_of_isDigit h]; rfl, ?_⟩
  simpa [Char.isDigit, UInt32.le_iff_toNat_le] using h

/-- The induction is on the digits, with what was read before them: where that is less, so is the
number, and where it is the same, the first difference among the digits decides. -/
theorem foldl_lt_iff {ds es : List Char} (hds : ∀ c ∈ ds, c.isDigit = true)
    (hes : ∀ c ∈ es, c.isDigit = true) (length : ds.length = es.length) (m n : Nat) :
    ds.foldl (fun n d => 10 * n + (Text.digitValue? d).getD 0) m <
        es.foldl (fun n d => 10 * n + (Text.digitValue? d).getD 0) n ↔
      m < n ∨ m = n ∧ ds < es := by
  induction ds generalizing es m n with
  | nil =>
    obtain rfl := List.length_eq_zero_iff.1 length.symm
    simp
  | cons d ds ih =>
    obtain ⟨e, es, rfl⟩ := List.exists_cons_of_length_eq_add_one length.symm
    obtain ⟨digit, above, below⟩ := digitValue_le_nine (hds d List.mem_cons_self)
    obtain ⟨digit', above', below'⟩ := digitValue_le_nine (hes e List.mem_cons_self)
    have less : d < e ↔ d.toNat < e.toNat := Iff.rfl
    have same : d = e ↔ d.toNat = e.toNat := ⟨congrArg _, fun h => Char.toNat_inj.1 h⟩
    simp only [List.foldl_cons, List.cons_lt_cons_iff]
    rw [ih (fun c hc => hds c (List.mem_cons_of_mem d hc))
      (fun c hc => hes c (List.mem_cons_of_mem e hc)) (by simpa using length), digit, digit', less,
      same]
    by_cases rest : ds < es <;> simp only [rest, and_true, and_false, or_false] <;> omega

namespace DigitRun.Aligned

variable {ds es : DigitRun}

theorem symm (h : ds.Aligned es) : es.Aligned ds := ⟨h.ascii', h.ascii, h.length.symm⟩

theorem value_lt_iff (h : ds.Aligned es) : ds.value < es.value ↔ ds.chars < es.chars := by
  simpa [value, numeralValue] using foldl_lt_iff h.ascii h.ascii' h.length 0 0

theorem value_eq_iff (h : ds.Aligned es) : ds.value = es.value ↔ ds.chars = es.chars := by
  have less := h.value_lt_iff
  have greater := h.symm.value_lt_iff
  constructor
  · intro same
    exact le_antisymm (not_lt.1 fun above => (greater.2 above).ne same.symm)
      (not_lt.1 fun below => (less.2 below).ne same)
  · intro same
    rw [value, value, same]

end DigitRun.Aligned

namespace VersionText

variable {t u : VersionText}

/-- Between versions that are aligned, the order of the texts is that of the versions. -/
theorem Aligned.precedes_iff (h : t.Aligned u) :
    t.version.Precedes u.version ↔ t.textKey false < u.textKey false := by
  have stage : [(stageOf t.stage).rank.1, (stageOf t.stage).rank.2] <
        [(stageOf u.stage).rank.1, (stageOf u.stage).rank.2] ↔
      [wordChars t.stage, numberChars t.stage, ending false] <
        [wordChars u.stage, numberChars u.stage, ending false] := by
    have aligned := h.stage
    cases written : t.stage with
    | none =>
      cases written' : u.stage with
      | none => simp [stageOf, wordChars, numberChars]
      | some s' => simp [written, written'] at aligned
    | some s =>
      cases written' : u.stage with
      | none => simp [written, written'] at aligned
      | some s' =>
        obtain ⟨w, ds⟩ := s
        obtain ⟨x, es⟩ := s'
        rw [written, written'] at aligned
        obtain ⟨words, numbers⟩ := aligned
        cases w <;> cases x <;> first
          | exact words.elim
          | simp [stageOf, wordChars, numberChars, StageWord.stage, StageWord.chars, Stage.rank,
              List.cons_lt_cons_iff, numbers.value_lt_iff]
  simp only [Version.Precedes, Version.key, version, textKey, List.cons_lt_cons_iff (a := t.major.value),
    List.cons_lt_cons_iff (a := t.minor.value), List.cons_lt_cons_iff (a := t.patch.value),
    List.cons_lt_cons_iff (a := t.major.chars), List.cons_lt_cons_iff (a := t.minor.chars),
    List.cons_lt_cons_iff (a := t.patch.chars), stage, h.major.value_lt_iff, h.major.value_eq_iff,
    h.minor.value_lt_iff, h.minor.value_eq_iff, h.patch.value_lt_iff, h.patch.value_eq_iff]

/-- Two versions are stages of one release, the last stage included. -/
structure SameRelease (t u : VersionText) : Prop where
  major : t.major.chars = u.major.chars
  minor : t.minor.chars = u.minor.chars
  patch : t.patch.chars = u.patch.chars

/-- The final release goes after all its stages, and its text before theirs. -/
theorem SameRelease.precedes_iff (h : t.SameRelease u)
    (final : t.stage.isSome ≠ u.stage.isSome) (feed feed' : Bool) :
    (t.version.Precedes u.version ↔ t.stage.isSome = true) ∧
      (t.textKey feed < u.textKey feed' ↔ t.stage.isSome = false) := by
  have major : t.major.value = u.major.value := congrArg numeralValue h.major
  have minor : t.minor.value = u.minor.value := congrArg numeralValue h.minor
  have patch : t.patch.value = u.patch.value := congrArg numeralValue h.patch
  simp only [Version.Precedes, Version.key, version, textKey, major, minor, patch, h.major, h.minor,
    h.patch, List.cons_lt_cons_iff (a := u.major.value), List.cons_lt_cons_iff (a := u.minor.value),
    List.cons_lt_cons_iff (a := u.patch.value), List.cons_lt_cons_iff (a := u.major.chars),
    List.cons_lt_cons_iff (a := u.minor.chars), List.cons_lt_cons_iff (a := u.patch.chars),
    lt_self_iff_false, false_or, true_and]
  cases written : t.stage with
  | none =>
    cases written' : u.stage with
    | none => simp [written, written'] at final
    | some s' =>
      obtain ⟨w, ds⟩ := s'
      cases w <;> simp [stageOf, wordChars, StageWord.stage, StageWord.chars, Stage.rank,
        List.cons_lt_cons_iff]
  | some s =>
    cases written' : u.stage with
    | some s' => simp [written, written'] at final
    | none =>
      obtain ⟨w, ds⟩ := s
      cases w <;> simp [stageOf, wordChars, StageWord.stage, StageWord.chars, Stage.rank,
        List.cons_lt_cons_iff]

end VersionText

/-! ### The check -/

namespace Job

variable {shell : Shell} {o : VersionUpdate} {b : Bench} {file : List Char} {current : String}

/-- An update gets past the check of the order. -/
def PassesOrderCheck (shell : Shell) (o : VersionUpdate) (b : Bench) : Prop :=
  ∀ current b', updateWork shell o b ≠ .error (.notLater current) b'

theorem passesOrderCheck_iff (accepted : Version.isAccepted o.version = true)
    (declares : Declares b.workspace file current) (unforced : o.force = false) :
    PassesOrderCheck shell o b ↔ current < o.version := by
  constructor
  · intro passes
    refine by_contra fun late => passes current b ?_
    exact updateWork_of_rejects (.order accepted declares unforced late)
  · intro later other b' rejected
    cases rejects_of_updateWork rejected rfl with
    | order _ declares' _ late =>
      obtain ⟨rfl, rfl⟩ := declares.unique declares'
      exact late later

/-- The order check compares versions as texts: number by number, but each number digit by digit,
and the words for stages letter by letter. This is right for versions that are aligned, and always
wrong between a release and a stage of it. -/
theorem increments_are_judged_by_text {c v : VersionText} {feed feed' : Bool}
    (declares : Declares b.workspace file (c.text feed)) (asked : o.version = v.text feed')
    (unforced : o.force = false) :
    (PassesOrderCheck shell o b ↔ c.textKey feed < v.textKey feed') ∧
      (c.Aligned v → feed = false → feed' = false →
        (PassesOrderCheck shell o b ↔ c.version.Precedes v.version)) ∧
      (c.SameRelease v → c.stage.isSome ≠ v.stage.isSome →
        (PassesOrderCheck shell o b ↔ ¬c.version.Precedes v.version)) := by
  have accepted : Version.isAccepted o.version = true := isAccepted_iff.2 ⟨v, feed', asked⟩
  have judged : PassesOrderCheck shell o b ↔ c.textKey feed < v.textKey feed' := by
    rw [passesOrderCheck_iff accepted declares unforced, asked, text_lt_iff]
  refine ⟨judged, ?_, fun release final => ?_⟩
  · rintro aligned rfl rfl
    rw [judged, aligned.precedes_iff]
  · obtain ⟨order, texts⟩ := release.precedes_iff final feed feed'
    rw [judged, texts, order, Bool.not_eq_true]

open Invocation in
theorem ten_is_not_let_through_after_nine :
    let c := digitVersion 0 9 0
    let v : VersionText := { digitVersion 0 0 0 with
      minor := ⟨['1', '0'], by simp, List.all_eq_true.1 (by decide)⟩ }
    let o : VersionUpdate := ⟨"0.10.0", false, false⟩
    let b := projectAt "0.9.0" []
    Declares b.workspace "__version__ = \"0.9.0\"\n".toList (c.text false) ∧
      o.version = v.text false ∧ o.force = false ∧
        ¬PassesOrderCheck tidy o b ∧ c.version.Precedes v.version := by
  intro c v o b
  have declares : Declares b.workspace "__version__ = \"0.9.0\"\n".toList (c.text false) :=
    declares_of_text? (by decide +kernel) (by decide +kernel) (by decide +kernel)
  have asked : o.version = v.text false := by decide +kernel
  refine ⟨declares, asked, rfl, fun (passes : PassesOrderCheck tidy o b) => ?_, by decide⟩
  obtain ⟨judged, -, -⟩ := increments_are_judged_by_text declares asked rfl
  exact absurd (judged.1 passes) (by decide)

end Job

end DirectiveSchema.Release

import DirectiveSchema.Release.Version

/-!
Written versions. A version is written by three runs of digits with points between them and, for a
release in the making, a point, the word for its stage and one more run of digits. The pattern for
versions accepts exactly these texts, and those that have one line feed more at the end.
-/
namespace DirectiveSchema.Release

/-- Decimal digits of any script, at least one. -/
structure DigitRun where
  chars : List Char
  nonempty : chars ≠ []
  decimal : ∀ c ∈ chars, Text.isDecimalDigit c = true

/-- The words for the stages of a release in the making. -/
inductive StageWord where
  | dev
  | a
  | b
  | rc
deriving DecidableEq, Inhabited

/-- A version as it is written, with nothing after it. -/
structure VersionText where
  major : DigitRun
  minor : DigitRun
  patch : DigitRun
  stage : Option (StageWord × DigitRun)

/-! ### Digits, words and what they are in a text -/

theorem readMark?_eq_some {mark : Char} {cs rest : List Char} :
    readMark? mark cs = some rest ↔ cs = mark :: rest := by
  cases cs with
  | nil => simp [readMark?]
  | cons c cs => by_cases h : c = mark <;> simp [readMark?, h]

namespace DigitRun

def value (ds : DigitRun) : Nat := numeralValue ds.chars

theorem readNumeral?_append (ds : DigitRun) {rest : List Char}
    (ends : ∀ c ∈ rest.head?, Text.isDecimalDigit c = false) :
    readNumeral? (ds.chars ++ rest) = some (ds.value, rest) :=
  Release.readNumeral?_append ds.nonempty ds.decimal ends

theorem of_readNumeral? {cs rest : List Char} {n : Nat} (h : readNumeral? cs = some (n, rest)) :
    ∃ ds : DigitRun, cs = ds.chars ++ rest ∧ ds.value = n := by
  unfold readNumeral? at h
  split at h
  · cases h
  · rename_i nonempty
    cases h
    refine ⟨⟨cs.takeWhile Text.isDecimalDigit, nonempty, ?_⟩, ?_, rfl⟩
    · exact List.all_eq_true.1 List.all_takeWhile
    · exact List.takeWhile_append_dropWhile.symm

end DigitRun

namespace StageWord

def chars : StageWord → List Char
  | dev => ['d', 'e', 'v']
  | a => ['a']
  | b => ['b']
  | rc => ['r', 'c']

def stage : StageWord → Nat → Stage
  | dev => .development
  | a => .alpha
  | b => .beta
  | rc => .candidate

theorem readWord?_append (w : StageWord) (rest : List Char) :
    Stage.readWord? (w.chars ++ rest) = some (w.stage, rest) := by
  cases w <;> rfl

theorem of_readWord? {cs rest : List Char} {f : Nat → Stage}
    (h : Stage.readWord? cs = some (f, rest)) : ∃ w : StageWord, cs = w.chars ++ rest ∧ w.stage = f := by
  unfold Stage.readWord? at h
  split at h <;> cases h
  · exact ⟨dev, rfl, rfl⟩
  · exact ⟨rc, rfl, rfl⟩
  · exact ⟨a, rfl, rfl⟩
  · exact ⟨b, rfl, rfl⟩

end StageWord

/-! ### Versions -/

namespace VersionText

/-- How a stage is written behind the three numbers. -/
def stageChars : Option (StageWord × DigitRun) → List Char
  | none => []
  | some (w, ds) => '.' :: (w.chars ++ ds.chars)

def chars (t : VersionText) : List Char :=
  t.major.chars ++ '.' :: (t.minor.chars ++ '.' :: (t.patch.chars ++ stageChars t.stage))

/-- The stage that is written. -/
def stageOf : Option (StageWord × DigitRun) → Stage
  | none => .final
  | some (w, ds) => w.stage ds.value

/-- The version that is written. -/
def version (t : VersionText) : Version :=
  ⟨t.major.value, t.minor.value, t.patch.value, stageOf t.stage⟩

/-- What may follow a version for the pattern to accept it: nothing, or a line feed. -/
def ending (feed : Bool) : List Char := if feed then ['\n'] else []

def text (t : VersionText) (feed : Bool) : String := String.ofList (t.chars ++ ending feed)

theorem not_digit_of_ending {feed : Bool} {c : Char} (h : c ∈ (ending feed).head?) :
    Text.isDecimalDigit c = false := by
  cases feed with
  | false => cases h
  | true =>
    cases h
    decide

/-- A version is read from its text, whichever of the two endings follows. -/
theorem read?_chars (t : VersionText) (feed : Bool) :
    Version.read? (t.chars ++ ending feed) = some (t.version, ending feed) := by
  have point {cs : List Char} : ∀ c ∈ ('.' :: cs).head?, Text.isDecimalDigit c = false := by
    rintro _ ⟨⟩
    decide
  have stage : Stage.read? (stageChars t.stage ++ ending feed) =
      t.stage.map fun s => (stageOf (some s), ending feed) := by
    cases t.stage with
    | none => cases feed <;> rfl
    | some s =>
      obtain ⟨w, ds⟩ := s
      simp [stageChars, Stage.read?, readMark?, StageWord.readWord?_append,
        ds.readNumeral?_append fun c => not_digit_of_ending, stageOf]
  have ends : ∀ c ∈ (stageChars t.stage ++ ending feed).head?,
      Text.isDecimalDigit c = false := by
    cases t.stage with
    | none => exact fun c => not_digit_of_ending
    | some s => exact point
  unfold Version.read? chars
  simp only [List.append_assoc, List.cons_append, t.major.readNumeral?_append point,
    t.minor.readNumeral?_append point, t.patch.readNumeral?_append ends, readMark?, if_true,
    Option.bind_eq_bind, Option.bind_some, stage]
  cases written : t.stage <;> simp [version, written, stageOf, stageChars]

/-- What is read as a version is one that is written at the front. -/
theorem of_read? {cs rest : List Char} {v : Version} (h : Version.read? cs = some (v, rest)) :
    ∃ t : VersionText, cs = t.chars ++ rest ∧ t.version = v := by
  unfold Version.read? at h
  simp only [Option.bind_eq_bind, Option.bind_eq_some_iff, Prod.exists] at h
  obtain ⟨_, r₁, read₁, _, mark₁, _, r₂, read₂, _, mark₂, _, r₃, read₃, h⟩ := h
  obtain ⟨major, rfl, rfl⟩ := DigitRun.of_readNumeral? read₁
  obtain ⟨minor, rfl, rfl⟩ := DigitRun.of_readNumeral? read₂
  obtain ⟨patch, rfl, rfl⟩ := DigitRun.of_readNumeral? read₃
  obtain rfl := readMark?_eq_some.1 mark₁
  obtain rfl := readMark?_eq_some.1 mark₂
  split at h
  · rename_i read
    cases h
    simp only [Stage.read?, Option.bind_eq_bind, Option.bind_eq_some_iff, Prod.exists] at read
    obtain ⟨_, mark, _, _, word, _, _, number, read⟩ := read
    cases read
    obtain ⟨w, rfl, rfl⟩ := StageWord.of_readWord? word
    obtain ⟨ds, rfl, rfl⟩ := DigitRun.of_readNumeral? number
    obtain rfl := readMark?_eq_some.1 mark
    exact ⟨⟨major, minor, patch, some (w, ds)⟩, by simp [chars, stageChars], rfl⟩
  · cases h
    exact ⟨⟨major, minor, patch, none⟩, by simp [chars, stageChars], rfl⟩

/-- The pattern accepts written versions, each with or without a line feed at the end. -/
theorem isAccepted_iff {s : String} :
    Version.isAccepted s = true ↔ ∃ (t : VersionText) (feed : Bool), s = t.text feed := by
  unfold Version.isAccepted
  constructor
  · intro accepted
    split at accepted
    · rename_i v rest read
      obtain ⟨t, same, -⟩ := of_read? read
      simp only [Bool.or_eq_true, List.isEmpty_iff, decide_eq_true_eq] at accepted
      rcases accepted with rfl | rfl
      · exact ⟨t, false, String.toList_inj.1 (same.trans String.toList_ofList.symm)⟩
      · exact ⟨t, true, String.toList_inj.1 (same.trans String.toList_ofList.symm)⟩
    · cases accepted
  · rintro ⟨t, feed, rfl⟩
    rw [text, String.toList_ofList, t.read?_chars]
    cases feed <;> rfl

end VersionText

end DirectiveSchema.Release

import DirectiveSchema.Text.DecimalDigit

/-!
Versions: three numerals with points between them, and for a release in the making a stage with a
numeral. Two orders are in play: the order of the texts, by which an update is let through, and the
order of the versions that the texts write.
-/
namespace DirectiveSchema.Release

/-- How far a release has come; the final release comes last. -/
inductive Stage where
  | development (n : Nat)
  | alpha (n : Nat)
  | beta (n : Nat)
  | candidate (n : Nat)
  | final
deriving DecidableEq, Inhabited

structure Version where
  major : Nat
  minor : Nat
  patch : Nat
  stage : Stage
deriving DecidableEq, Inhabited

/-- The number that digits write, the most significant first. -/
def numeralValue (ds : List Char) : Nat :=
  ds.foldl (fun n d => 10 * n + (Text.digitValue? d).getD 0) 0

/-- Reads a numeral: the digits at the front, of which there is at least one. -/
def readNumeral? (cs : List Char) : Option (Nat × List Char) :=
  match cs.takeWhile Text.isDecimalDigit with
  | [] => none
  | ds => some (numeralValue ds, cs.dropWhile Text.isDecimalDigit)

/-- Digits that no digit follows are read as their number. -/
theorem readNumeral?_append {ds rest : List Char} (hne : ds ≠ [])
    (hd : ∀ c ∈ ds, Text.isDecimalDigit c = true)
    (hr : ∀ c ∈ rest.head?, Text.isDecimalDigit c = false) :
    readNumeral? (ds ++ rest) = some (numeralValue ds, rest) := by
  have htake : rest.takeWhile Text.isDecimalDigit = [] := by
    cases rest with
    | nil => rfl
    | cons c cs => simp [hr c rfl]
  have hdrop : rest.dropWhile Text.isDecimalDigit = rest := by
    cases rest with
    | nil => rfl
    | cons c cs => simp [hr c rfl]
  obtain ⟨d, ds, rfl⟩ := List.exists_cons_of_ne_nil hne
  unfold readNumeral?
  rw [List.takeWhile_append_of_pos hd, List.dropWhile_append_of_pos hd, htake, hdrop]
  simp

/-- Reads one character. -/
def readMark? (mark : Char) : List Char → Option (List Char)
  | [] => none
  | c :: cs => if c = mark then some cs else none

namespace Stage

/-- Reads the word for a stage. -/
def readWord? : List Char → Option ((Nat → Stage) × List Char)
  | 'd' :: 'e' :: 'v' :: cs => some (development, cs)
  | 'r' :: 'c' :: cs => some (candidate, cs)
  | 'a' :: cs => some (alpha, cs)
  | 'b' :: cs => some (beta, cs)
  | _ => none

/-- Reads a stage with the point before it. -/
def read? (cs : List Char) : Option (Stage × List Char) := do
  let cs ← readMark? '.' cs
  let (stage, cs) ← readWord? cs
  let (n, cs) ← readNumeral? cs
  return (stage n, cs)

/-- The place of a stage in the order, the number in it second. -/
def rank : Stage → Nat × Nat
  | development n => (0, n)
  | alpha n => (1, n)
  | beta n => (2, n)
  | candidate n => (3, n)
  | final => (4, 0)

end Stage

namespace Version

/-- Reads a version at the front of a text, its stage too if one follows. -/
def read? (cs : List Char) : Option (Version × List Char) := do
  let (major, cs) ← readNumeral? cs
  let cs ← readMark? '.' cs
  let (minor, cs) ← readNumeral? cs
  let cs ← readMark? '.' cs
  let (patch, cs) ← readNumeral? cs
  match Stage.read? cs with
  | some (stage, cs) => return (⟨major, minor, patch, stage⟩, cs)
  | none => return (⟨major, minor, patch, .final⟩, cs)

/-- The version that a text writes from its first character to its last. -/
def ofText? (s : String) : Option Version :=
  match read? s.toList with
  | some (v, []) => some v
  | _ => none

/-- Whether a text passes as a version: it writes one, and at most a line feed follows. -/
def isAccepted (s : String) : Bool :=
  match read? s.toList with
  | some (_, rest) => rest.isEmpty || rest = ['\n']
  | none => false

/-- What versions are compared by, the first difference first. -/
def key (v : Version) : List Nat := [v.major, v.minor, v.patch, v.stage.rank.1, v.stage.rank.2]

/-- Whether a version comes strictly before another. -/
def Precedes (v w : Version) : Prop := v.key < w.key

instance (v w : Version) : Decidable (v.Precedes w) := inferInstanceAs (Decidable (v.key < w.key))

/-- A text that writes a version passes as one. -/
theorem isAccepted_of_ofText? {s : String} {v : Version} (h : ofText? s = some v) :
    isAccepted s = true := by
  unfold ofText? at h
  split at h
  · next hr => simp [isAccepted, hr]
  · simp at h

end Version

end DirectiveSchema.Release

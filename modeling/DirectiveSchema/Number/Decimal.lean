import DirectiveSchema.Number.Binary64
import DirectiveSchema.Text.Blank
import DirectiveSchema.Text.DecimalDigit

/-!
Numerals. A numeral may have blanks around it, may write its digits in any script, and may group
digits by single underscores. What remains is a signed run of digits (an integer) or a decimal
fraction with an optional exponent, which denotes `± digits * 10 ^ exponent` exactly.
-/
namespace DirectiveSchema

/-- The exact value `± digits * 10 ^ exponent`. -/
structure Decimal where
  negative : Bool
  digits : Nat
  exponent : Int
deriving DecidableEq, Repr

namespace Numeral

/-- The longest run of digits that is read as an integer. -/
def integerDigitLimit : Nat := 4300

/-- A digit of any script becomes the ASCII digit of its value. -/
def asciiDigit (c : Char) : Char :=
  if c.toNat < 128 then c
  else match Text.digitValue? c with
    | some d => Nat.digitChar d
    | none => c

/-- Drops the underscores, each of which has to stand between two digits. -/
def ungroup : List Char → Option (List Char)
  | a :: '_' :: b :: r =>
    if a.isDigit && b.isDigit then (ungroup (b :: r)).map (a :: ·) else none
  | a :: r => if a == '_' then none else (ungroup r).map (a :: ·)
  | [] => some []

/-- The bare characters of a numeral: no blanks around it, ASCII digits, no underscores. -/
def bare? (cs : List Char) : Option (List Char) :=
  ungroup ((Text.trim Text.isNumeralBlank cs).map asciiDigit)

/-- Whether a numeral starts with a minus sign, and what follows the sign. -/
def sign : List Char → Bool × List Char
  | '-' :: r => (true, r)
  | '+' :: r => (false, r)
  | r => (false, r)

/-- The value of a run of ASCII digits. -/
def digitsValue (cs : List Char) : Nat :=
  cs.foldl (fun n c => 10 * n + (c.toNat - 48)) 0

def isDigits (cs : List Char) : Bool := !cs.isEmpty && cs.all Char.isDigit

def signed (negative : Bool) (n : Nat) : Int := if negative then -(n : Int) else n

/-- Reads bare characters as an integer. -/
def bareInteger? (cs : List Char) : Option Int :=
  let (negative, r) := sign cs
  if isDigits r && decide (r.length ≤ integerDigitLimit) then
    some (signed negative (digitsValue r))
  else none

/-- Reads a text as an integer. -/
def integer? (s : String) : Option Int := (bare? s.toList).bind bareInteger?

/-- The exponent part: nothing, or a mark followed by an integer. -/
def exponent? : List Char → Option Int
  | [] => some 0
  | c :: r =>
    if c == 'e' || c == 'E' then
      let (negative, ds) := sign r
      if isDigits ds then some (signed negative (digitsValue ds)) else none
    else none

/-- Splits a run of digits from what follows it. -/
def spanDigits (cs : List Char) : List Char × List Char :=
  (cs.takeWhile Char.isDigit, cs.dropWhile Char.isDigit)

/-- The digits after the point, if there is a point. -/
def fraction : List Char → List Char × List Char
  | '.' :: r => spanDigits r
  | r => ([], r)

/-- Reads bare characters as a decimal fraction. -/
def bareDecimal? (cs : List Char) : Option Decimal :=
  let (negative, r) := sign cs
  let (whole, r) := spanDigits r
  let (frac, r) := fraction r
  if whole.isEmpty && frac.isEmpty then none
  else (exponent? r).map fun e => ⟨negative, digitsValue (whole ++ frac), e - frac.length⟩

/-- Reads bare characters as one of the named values, in any mix of cases. -/
def bareNamed? (cs : List Char) : Option Binary64 :=
  let (negative, r) := sign cs
  let word := String.ofList (r.map Char.toLower)
  if word = "inf" ∨ word = "infinity" then some (.infinite negative)
  else if word = "nan" then some (.nan 0)
  else none

end Numeral

namespace Decimal

/-- The steps of the value nearest to `digits * 10 ^ exponent`. -/
def nearestSteps (digits : Nat) (exponent : Int) : Nat :=
  if 0 ≤ exponent then
    Binary64.roundSteps (digits * Nat.pow 10 exponent.toNat * Binary64.oneSteps) 1
  else Binary64.roundSteps (digits * Binary64.oneSteps) (Nat.pow 10 (-exponent).toNat)

/-- Beyond the finite range by the exponent alone. -/
def isHuge (d : Decimal) : Bool := d.digits != 0 && decide (400 < d.exponent)

/-- Below half a step: `10 ^ k` is at least `2 ^ (3 * k)`. -/
def isTiny (d : Decimal) : Bool :=
  d.digits == 0 || decide ((d.digits.log2 : Int) + 1101 < 3 * (-d.exponent))

/-- The nearest double-precision value. -/
def toBinary64 (d : Decimal) : Binary64 :=
  if d.isHuge then .infinite d.negative
  else if d.isTiny then .finite d.negative 0
  else Binary64.ofSteps d.negative (nearestSteps d.digits d.exponent)

end Decimal

namespace Binary64

/-- Reads the characters of a numeral, rounding a decimal fraction to nearest. -/
def ofChars? (cs : List Char) : Option Binary64 :=
  (Numeral.bare? cs).bind fun r =>
    match Numeral.bareNamed? r with
    | some x => some x
    | none => (Numeral.bareDecimal? r).map Decimal.toBinary64

def ofText? (s : String) : Option Binary64 := ofChars? s.toList

/-- Reads a byte string, which has to be ASCII. -/
def ofBytes? (bs : List UInt8) : Option Binary64 :=
  if bs.all (· < 0x80) then ofChars? (bs.map fun b => Char.ofNat b.toNat) else none

end Binary64

end DirectiveSchema

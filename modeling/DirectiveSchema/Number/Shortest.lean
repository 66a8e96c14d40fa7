import DirectiveSchema.Number.Decimal

/-!
The printed form of a double-precision number: the fewest decimal digits that read back as the
value, and of two such numerals of one length the nearer one. `FloatLayout` holds the decisions of
the format, and `Binary64.text` writes a value.
-/
namespace DirectiveSchema

/-- A positive decimal `digits * 10 ^ exponent`. -/
structure Digits where
  digits : Nat
  exponent : Int
deriving DecidableEq, Repr

namespace Binary64

/-- The greatest `n` with `n * 10 ^ place` not above the value. -/
def floorAt (steps : Nat) (place : Int) : Nat :=
  if 0 ≤ place then steps / (oneSteps * Nat.pow 10 place.toNat)
  else steps * Nat.pow 10 (-place).toNat / oneSteps

/-- Whether `digits * 10 ^ place` is read as the value. -/
def readsBack (steps digits : Nat) (place : Int) : Bool :=
  Decimal.nearestSteps digits place == steps

/-- The order of the distances of the value to `n` and to `n + 1` on the grid `10 ^ place`. -/
def compareNeighbours (steps n : Nat) (place : Int) : Ordering :=
  if 0 ≤ place then compare (2 * steps) ((2 * n + 1) * Nat.pow 10 place.toNat * oneSteps)
  else compare (2 * steps * Nat.pow 10 (-place).toNat) ((2 * n + 1) * oneSteps)

/-- Of a value's two neighbours on a grid, the one that reads back; of two the nearer. -/
def onGrid? (steps : Nat) (place : Int) : Option Digits :=
  let n := floorAt steps place
  match readsBack steps n place, readsBack steps (n + 1) place with
  | true, false => some ⟨n, place⟩
  | false, true => some ⟨n + 1, place⟩
  | false, false => none
  | true, true =>
    match compareNeighbours steps n place with
    | .lt => some ⟨n, place⟩
    | .gt => some ⟨n + 1, place⟩
    | .eq => some ⟨if n % 2 = 0 then n else n + 1, place⟩

/-- The decimal exponent of the first digit of a positive value. -/
def leadingExponent (steps : Nat) : Int :=
  ((Nat.toDigits 10 (floorAt steps (-400))).length : Int) - 401

/-- The exact decimal expansion. -/
def exactDigits (steps : Nat) : Digits := ⟨steps * Nat.pow 5 1074, -1074⟩

/-- The shortest decimal that reads back as a positive value. -/
def shortest (steps : Nat) : Digits :=
  let lead := leadingExponent steps
  ((List.range 17).findSome? fun (n : Nat) => onGrid? steps (lead - n)).getD (exactDigits steps)

end Binary64

/-- How a value with given decimal digits is laid out. -/
structure FloatLayout where
  /-- The least exponent of the first digit that is written positionally. -/
  leastPositional : Int
  /-- The first exponent of the first digit that is not written positionally. -/
  exponentFrom : Int
  /-- The least number of digits of a written exponent. -/
  exponentWidth : Nat
  exponentMark : Char

namespace FloatLayout

/-- Positional between `10 ^ (-4)` and `10 ^ 16`, with an exponent of two digits or more outside. -/
def standard : FloatLayout := ⟨-4, 16, 2, 'e'⟩

def zeros (n : Nat) : List Char := List.replicate n '0'

/-- A signed exponent, padded to its least width. -/
def exponentPart (f : FloatLayout) (e : Int) : List Char :=
  let ds := Nat.toDigits 10 e.natAbs
  f.exponentMark :: (if e < 0 then '-' else '+') :: (zeros (f.exponentWidth - ds.length) ++ ds)

/-- A point after the first digit, if more follow. -/
def pointed : List Char → List Char
  | [] => []
  | [d] => [d]
  | d :: ds => d :: '.' :: ds

/-- Digits whose first one has the exponent `lead`; a whole number keeps one zero after the
point. -/
def positional (ds : List Char) (lead : Int) : List Char :=
  if lead < 0 then '0' :: '.' :: (zeros (-lead - 1).toNat ++ ds)
  else
    let whole := (lead + 1).toNat
    if ds.length ≤ whole then ds ++ zeros (whole - ds.length) ++ ['.', '0']
    else ds.take whole ++ '.' :: ds.drop whole

/-- The text of a positive decimal. -/
def render (f : FloatLayout) (d : Digits) : List Char :=
  let all := Nat.toDigits 10 d.digits
  let ds := (all.reverse.dropWhile (· == '0')).reverse
  let lead := (all.length : Int) - 1 + d.exponent
  if f.leastPositional ≤ lead ∧ lead < f.exponentFrom then positional ds lead
  else pointed ds ++ f.exponentPart lead

end FloatLayout

namespace Binary64

def signChars (negative : Bool) : List Char := if negative then ['-'] else []

/-- The printed form. -/
def text : Binary64 → String
  | .nan _ => "nan"
  | .infinite negative => String.ofList (signChars negative ++ ['i', 'n', 'f'])
  | .finite negative 0 => String.ofList (signChars negative ++ ['0', '.', '0'])
  | .finite negative steps =>
    String.ofList (signChars negative ++ FloatLayout.standard.render (shortest steps))

end Binary64

end DirectiveSchema

/-!
Double-precision numbers. A finite value is a whole number of steps of `2 ^ (-1074)` with a sign
bit of its own, so that comparison, truncation and rounding are exact arithmetic on naturals. The
main function rounds a quotient to the nearest value, a half going to the even significand.
-/
namespace DirectiveSchema

/-- Not-a-number values are told apart by a payload, which stands for the identity of the datum. -/
inductive Binary64 where
  | nan (payload : Nat)
  | infinite (negative : Bool)
  | finite (negative : Bool) (steps : Nat)
deriving DecidableEq, Inhabited, Repr

namespace Binary64

/-- The steps in the number one. -/
def oneSteps : Nat := Nat.pow 2 1074

theorem oneSteps_pos : 0 < oneSteps := Nat.two_pow_pos 1074

/-- The least power of two beyond the finite range, in steps. -/
def overflowSteps : Nat := Nat.pow 2 2098

/-- The low binary places of a number of steps that a significand of 53 bits cannot hold. -/
def spare (steps : Nat) : Nat := steps.log2 - 52

/-- The whole number nearest to `num / den`, a half going to the even neighbour. -/
def nearestEven (num den : Nat) : Nat :=
  let q := num / den
  let r := num % den
  if 2 * r < den then q
  else if den < 2 * r then q + 1
  else if q % 2 = 0 then q else q + 1

/-- The steps of the value nearest to `num / den` steps. -/
def roundSteps (num den : Nat) : Nat :=
  let unit := Nat.pow 2 (spare (num / den))
  nearestEven num (den * unit) * unit

def ofSteps (negative : Bool) (steps : Nat) : Binary64 :=
  if steps < overflowSteps then .finite negative steps else .infinite negative

/-- The value nearest to the quotient `num / den`. -/
def ofRatio (negative : Bool) (num den : Nat) : Binary64 :=
  ofSteps negative (roundSteps (num * oneSteps) den)

/-- The value nearest to an integer, unless that is infinite. -/
def ofInt? (n : Int) : Option Binary64 :=
  match ofRatio (decide (n < 0)) n.natAbs 1 with
  | .finite neg s => some (.finite neg s)
  | _ => none

def isNaN : Binary64 → Bool
  | .nan _ => true
  | _ => false

def isZero : Binary64 → Bool
  | .finite _ s => s == 0
  | _ => false

/-- A finite value as a signed number of steps. -/
def signedSteps (negative : Bool) (steps : Nat) : Int :=
  if negative then -(steps : Int) else steps

/-- A finite value without its fraction. -/
def truncate? : Binary64 → Option Int
  | .finite neg s => some (signedSteps neg (s / oneSteps))
  | _ => none

def isInteger : Binary64 → Bool
  | .finite _ s => s % oneSteps == 0
  | _ => false

/-- Exact numeric equality with an integer. -/
def equalsInt (x : Binary64) (n : Int) : Bool :=
  match x with
  | .finite neg s => signedSteps neg s == n * oneSteps
  | _ => false

/-- Numeric equality: the two zeros are equal, and a not-a-number value equals nothing. -/
def numericEq : Binary64 → Binary64 → Bool
  | .finite n s, .finite n' s' => signedSteps n s == signedSteps n' s'
  | .infinite n, .infinite n' => n == n'
  | _, _ => false

/-- The same datum: what an identity test of two stored numbers answers. -/
def same (x y : Binary64) : Bool := decide (x = y)

theorem isInteger_iff_truncate (neg : Bool) (s : Nat) :
    (Binary64.finite neg s).isInteger = true ↔ s = s / oneSteps * oneSteps := by
  have h := Nat.div_add_mod' s oneSteps
  simp only [isInteger, beq_iff_eq]
  omega

theorem numericEq_comm (x y : Binary64) : numericEq x y = numericEq y x := by
  cases x <;> cases y <;> simp [numericEq, Bool.beq_comm]

end Binary64

end DirectiveSchema

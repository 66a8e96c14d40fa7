import DirectiveSchema.Value

/-!
Hash keys: trees of numbers, texts and identities that can be compared at once. Data hash alike when
their keys are equal. A set keeps its elements, and a dictionary its entries, under the keys that
they had when they were put there, whatever becomes of them later.
-/
namespace DirectiveSchema

inductive HashKey where
  | null
  | unnamed
  | integer (n : Int)
  | fraction (steps : Int)
  | infinite (negative : Bool)
  | nan (payload : Nat)
  | text (s : String)
  | bytes (bs : List UInt8)
  | wrapper (w : Wrapper)
  | object (kind : CellKind) (index : Nat)
  | tagged (tag : Nat)
  | nil
  | cons (head tail : HashKey)
deriving DecidableEq, Inhabited, Repr

namespace HashKey

/-- The key of a row of keys. -/
def row (keys : List HashKey) : HashKey := keys.foldr cons nil

theorem row_injective {xs ys : List HashKey} (h : row xs = row ys) : xs = ys := by
  induction xs generalizing ys with
  | nil =>
    cases ys with
    | nil => rfl
    | cons y ys => simp [row] at h
  | cons x xs ih =>
    cases ys with
    | nil => simp [row] at h
    | cons y ys =>
      simp only [row, List.foldr_cons, cons.injEq] at h
      rw [h.1, ih h.2]

/-- The key of a number: a whole number has the key of the integer it equals. -/
def float : Binary64 → HashKey
  | .nan p => .nan p
  | .infinite neg => .infinite neg
  | .finite neg s =>
    if s % Binary64.oneSteps = 0 then
      .integer (Binary64.signedSteps neg (s / Binary64.oneSteps))
    else .fraction (Binary64.signedSteps neg s)

end HashKey

/-- An element of a set. -/
structure Member where
  hash : HashKey
  value : Value
deriving Inhabited

/-- An entry of a dictionary. -/
structure Entry where
  hash : HashKey
  key : Value
  value : Value
deriving Inhabited

def Entry.contents (e : Entry) : List Value := [e.key, e.value]

end DirectiveSchema

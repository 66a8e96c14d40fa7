import DirectiveSchema.Container
import DirectiveSchema.Display

/-!
Scalar types: a pair of coercions, one for each direction. `integer` and `float` accept what denotes
a number of their range; a rejected datum becomes an error of serialization or of parsing, and any
other fault passes through.
-/
namespace DirectiveSchema.Scalars

def minInteger : Int := -2147483648

def maxInteger : Int := 2147483647

def inRange (n : Int) : Bool := decide (minInteger ≤ n ∧ n ≤ maxInteger)

/-- The integer that a text denotes: an integer numeral, or a decimal fraction whose nearest
double-precision value is whole. -/
def integerOfText? (s : String) : Option Int :=
  match Numeral.integer? s with
  | some n => some n
  | none => (Binary64.ofText? s).bind fun x => if x.isInteger then x.truncate? else none

/-- The integer that a datum denotes, before its range is checked. -/
def wholeNumber (supply : Supplier) (v : Value) : Action Int :=
  match v with
  | .bool b => pure b.toInt
  | .int n => pure n
  | .float (.nan _) => throw .nanToInteger
  | .float (.infinite _) => throw .infinityToInteger
  | .float x =>
    match x.truncate? with
    | some n => if x.equalsInt n then pure n else throw (.notInteger x.text)
    | none => throw (.notInteger x.text)
  | .null => throw (.notInteger "None")
  | _ =>
    match v.text? with
    | some "" => throw (.notInteger "(empty string)")
    | some s =>
      match integerOfText? s with
      | some n => pure n
      | none => throw (.notInteger s)
    | none => do throw (.notInteger (← Display.literal supply v))

/-- Coerces a datum to a 32-bit integer. -/
def integer (supply : Supplier) (v : Value) : Action Int := do
  let n ← wholeNumber supply v
  if inRange n then return n
  throw (.integerOutOfRange (← Display.filled supply v))

/-- What was looked for, or a fault if there is none. -/
def found {α : Type} (fault : Fault) : Option α → Action α
  | some x => pure x
  | none => throw fault

def floatOfInteger (n : Int) : Action Binary64 := found .integerToFloat (Binary64.ofInt? n)

/-- Coerces a datum to a double-precision number. -/
def float (supply : Supplier) (v : Value) : Action Binary64 :=
  match v with
  | .null => throw (.notNumeric "None")
  | .float x => pure x
  | .int n => floatOfInteger n
  | .bool b => floatOfInteger b.toInt
  | .bytes bs =>
    match Binary64.ofBytes? bs with
    | some x => pure x
    | none => do throw (.notNumeric (← Display.label supply v))
  | _ =>
    match v.text? with
    | some "" => throw (.notNumeric "(empty string)")
    | some s =>
      match Binary64.ofText? s with
      | some x => pure x
      | none => throw (.notNumeric s)
    | none => throw (.notFloatable v.className)

/-- The label of anything but a list or a tuple. -/
def stringIn (supply : Supplier) (v : Value) : Action Value :=
  match v with
  | .list _ | .tuple _ _ | .config _ _ _ _ _ => do
    throw (.listAsText (← Display.label supply v))
  | _ => Display.labelValue supply v

/-- Like `stringIn`, with truth values in lower case. -/
def stringOut (supply : Supplier) (v : Value) : Action Value :=
  match v with
  | .bool b => pure (.text (if b then "true" else "false"))
  | _ => stringIn supply v

/-- The label of a text or an integer. -/
def identifier (supply : Supplier) (v : Value) : Action Value :=
  match v with
  | .text _ | .location _ | .int _ => Display.labelValue supply v
  | _ => do throw (.notIdentifier (← Display.filledLiteral supply v))

/-- Applies a coercion to a datum. -/
def apply (supply : Supplier) (c : Coercion) (v : Value) : Action Value :=
  match c with
  | .identity => pure v
  | .label => Display.labelValue supply v
  | .integer => return .int (← integer supply v)
  | .float => return .float (← float supply v)
  | .truth => return .bool (← Container.isTruthy v)
  | .stringOut => stringOut supply v
  | .stringIn => stringIn supply v
  | .identifier => identifier supply v
  | .constant u => pure u
  | .raising kind message => throw (.raised kind message)

/-- Turns a rejection into a fault of the scalar type. -/
def guarded (wrap : Fault → Fault) (act : Action Value) : Action Value :=
  tryCatch act fun f => throw (if f.isRejection then wrap f else f)

def serialize (supply : Supplier) (r : Ref .scalar) (v : Value) : Action Value := do
  guarded .serialization (apply supply ((← get).scalar r).serialize v)

def parse (supply : Supplier) (r : Ref .scalar) (v : Value) : Action Value := do
  guarded .parsing (apply supply ((← get).scalar r).parse v)

end DirectiveSchema.Scalars

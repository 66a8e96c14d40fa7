import DirectiveSchema.Text.Printable

/-!
Quoted forms of texts and byte strings. The quote is an apostrophe, unless the content holds one
and no double quote; the quote itself, the backslash and whatever is not printable are escaped.
-/
namespace DirectiveSchema.Text

/-- The digits of `n` to the given number of places in lower-case hexadecimal. -/
def hexadecimal : Nat → Nat → List Char
  | 0, _ => []
  | places + 1, n => hexadecimal places (n / 16) ++ [Nat.digitChar (n % 16)]

/-- The quote written around a content in which the two marks occur as stated. -/
def chooseQuote (hasApostrophe hasDouble : Bool) : Char :=
  if hasApostrophe && !hasDouble then '"' else '\x27'

/-- The escapes shared by texts and byte strings: the quote, the backslash and three controls. -/
def shortEscape? (quote c : Char) : Option (List Char) :=
  if c == quote || c == '\\' then some ['\\', c]
  else if c == '\n' then some ['\\', 'n']
  else if c == '\r' then some ['\\', 'r']
  else if c == '\t' then some ['\\', 't']
  else none

/-- One character of a quoted text. -/
def escapeChar (quote c : Char) : List Char :=
  match shortEscape? quote c with
  | some cs => cs
  | none =>
    if isPrintable c then [c]
    else if c.toNat < 0x100 then '\\' :: 'x' :: hexadecimal 2 c.toNat
    else if c.toNat < 0x10000 then '\\' :: 'u' :: hexadecimal 4 c.toNat
    else '\\' :: 'U' :: hexadecimal 8 c.toNat

/-- One byte of a quoted byte string: printable ASCII stands for itself. -/
def escapeByte (quote : Char) (b : UInt8) : List Char :=
  let c := Char.ofNat b.toNat
  match shortEscape? quote c with
  | some cs => cs
  | none =>
    if 0x20 ≤ b.toNat && b.toNat ≤ 0x7E then [c] else '\\' :: 'x' :: hexadecimal 2 b.toNat

/-- The quoted form of a text. -/
def quoted (s : String) : String :=
  let cs := s.toList
  let quote := chooseQuote (cs.contains '\x27') (cs.contains '"')
  String.ofList (quote :: (cs.flatMap (escapeChar quote) ++ [quote]))

/-- The quoted form of a byte string. -/
def quotedBytes (bs : List UInt8) : String :=
  let quote := chooseQuote (bs.contains 0x27) (bs.contains 0x22)
  String.ofList ('b' :: quote :: (bs.flatMap (escapeByte quote) ++ [quote]))

theorem length_hexadecimal (places n : Nat) : (hexadecimal places n).length = places := by
  induction places generalizing n with
  | zero => rfl
  | succ k ih => simp [hexadecimal, ih]

end DirectiveSchema.Text

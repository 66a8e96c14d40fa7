/-!
Occurrences of one text in another, and the replacement of all of them. They are replaced from left
to right and do not overlap; the empty text occurs before every character and at the end.
-/
namespace DirectiveSchema.Text

/-- Whether a text occurs in another. -/
def occursIn (part : List Char) : List Char → Bool
  | [] => part.isEmpty
  | c :: cs => part.isPrefixOf (c :: cs) || occursIn part cs

theorem occursIn_iff {part text : List Char} : occursIn part text = true ↔ part <:+: text := by
  induction text with
  | nil => simp [occursIn]
  | cons c cs ih => simp [occursIn, ih, List.infix_cons_iff, List.isPrefixOf_iff_prefix]

/-- Replaces a text that is not empty, after passing over as many characters as stated. -/
def replaceFrom (old new : List Char) : Nat → List Char → List Char
  | _, [] => []
  | k + 1, _ :: cs => replaceFrom old new k cs
  | 0, c :: cs =>
    if old.isPrefixOf (c :: cs) then new ++ replaceFrom old new (old.length - 1) cs
    else c :: replaceFrom old new 0 cs

/-- Replaces every occurrence of `old` by `new`. -/
def replaceAll (old new text : List Char) : List Char :=
  if old.isEmpty then new ++ text.flatMap fun c => c :: new
  else replaceFrom old new 0 text

theorem replaceFrom_append (old new skipped cs : List Char) :
    replaceFrom old new skipped.length (skipped ++ cs) = replaceFrom old new 0 cs := by
  induction skipped with
  | nil => rfl
  | cons c skipped ih => simpa [replaceFrom] using ih

/-- An occurrence at the front is replaced, and the search goes on behind it. -/
theorem replaceAll_append {old : List Char} (h : old ≠ []) (new cs : List Char) :
    replaceAll old new (old ++ cs) = new ++ replaceAll old new cs := by
  obtain ⟨c, rest, rfl⟩ := List.exists_cons_of_ne_nil h
  have hp : (c :: rest).isPrefixOf (c :: (rest ++ cs)) = true :=
    List.isPrefixOf_iff_prefix.2 (List.prefix_append (c :: rest) cs)
  simp [replaceAll, replaceFrom, hp, replaceFrom_append]

/-- A character at which no occurrence starts is kept. -/
theorem replaceAll_cons {old : List Char} {c : Char} {cs : List Char} (new : List Char)
    (h : ¬ old <+: c :: cs) : replaceAll old new (c :: cs) = c :: replaceAll old new cs := by
  have hne : old ≠ [] := fun h' => h (h' ▸ List.nil_prefix)
  simp [replaceAll, hne, replaceFrom, List.isPrefixOf_iff_prefix, h]

end DirectiveSchema.Text

/-!
Names of directives, arguments and types. A name starts with a letter or an underscore and goes on
with letters, digits and underscores, all of them ASCII. `Name.Spells` states the grammar and
`Name.isValid` decides it.
-/
namespace DirectiveSchema.Name

def isStart (c : Char) : Bool := c == '_' || c.isAlpha

def isPart (c : Char) : Bool := isStart c || c.isDigit

/-- Decides the grammar of names. -/
def isValid (s : String) : Bool :=
  match s.toList with
  | [] => false
  | c :: cs => isStart c && cs.all isPart

/-- The grammar as it is written in messages. -/
def pattern : String := "^[_a-zA-Z][_a-zA-Z0-9]*$"

/-- The grammar of names, as a property of the characters. -/
inductive Spells : List Char → Prop where
  | intro {c : Char} {cs : List Char} :
      isStart c = true → (∀ d ∈ cs, isPart d = true) → Spells (c :: cs)

theorem isValid_iff_spells (s : String) : isValid s = true ↔ Spells s.toList := by
  unfold isValid
  cases s.toList with
  | nil => exact ⟨fun h => by simp at h, fun h => nomatch h⟩
  | cons c cs =>
    simp only [Bool.and_eq_true, List.all_eq_true]
    exact ⟨fun h => .intro h.1 h.2, fun | .intro hc hcs => ⟨hc, hcs⟩⟩

end DirectiveSchema.Name

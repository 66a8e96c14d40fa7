import DirectiveSchema.Proofs.VersionCommit
import DirectiveSchema.Proofs.VersionText

/-!
What the format check of an update lets through: written versions, and a line feed after one. A
written version has neither quotes nor line ends nor anything that a shell takes for more than a
letter. So between two quotes it is a text of its own, and in a command it is part of one word. A
line feed only ends a command, but between quotes it leaves the text open.
-/
namespace DirectiveSchema.Release

open VersionText

/-! ### The characters of a version -/

theorem VersionText.mem_chars {t : VersionText} {c : Char} (h : c ∈ t.chars) :
    Text.isDecimalDigit c = true ∨ c ∈ ['.', 'd', 'e', 'v', 'a', 'b', 'r', 'c'] := by
  have number {ds : DigitRun} (h : c ∈ ds.chars) : Text.isDecimalDigit c = true := ds.decimal c h
  have word {w : StageWord} (h : c ∈ w.chars) : c ∈ ['.', 'd', 'e', 'v', 'a', 'b', 'r', 'c'] := by
    cases w <;> simp_all [StageWord.chars]
    all_goals grind
  have stage (h : c ∈ stageChars t.stage) :
      Text.isDecimalDigit c = true ∨ c ∈ ['.', 'd', 'e', 'v', 'a', 'b', 'r', 'c'] := by
    cases written : t.stage with
    | none => simp [written, stageChars] at h
    | some s =>
      obtain ⟨w, ds⟩ := s
      rw [written, stageChars, List.mem_cons, List.mem_append] at h
      rcases h with rfl | h | h
      · exact .inr List.mem_cons_self
      · exact .inr (word h)
      · exact .inl (number h)
  simp only [chars, List.mem_append, List.mem_cons] at h
  rcases h with h | rfl | h | rfl | h | h
  · exact .inl (number h)
  · exact .inr List.mem_cons_self
  · exact .inl (number h)
  · exact .inr List.mem_cons_self
  · exact .inl (number h)
  · exact stage h

/-- A character that is neither a decimal digit nor in the words for stages is in no version. -/
theorem VersionText.not_mem_chars (t : VersionText) {d : Char}
    (digit : Text.isDecimalDigit d = false := by decide)
    (other : d ∉ ['.', 'd', 'e', 'v', 'a', 'b', 'r', 'c'] := by decide) : d ∉ t.chars := by
  intro h
  rcases mem_chars h with decimal | letter
  · rw [decimal] at digit
    cases digit
  · exact other letter

/-- A version stays within quotes on one line. -/
theorem VersionText.inside_quotes (t : VersionText) : ∀ c ∈ t.chars, c ≠ '"' ∧ c ≠ '\n' := by
  intro c hc
  constructor
  · rintro rfl
    exact absurd hc t.not_mem_chars
  · rintro rfl
    exact absurd hc t.not_mem_chars

theorem VersionText.chars_ne_nil (t : VersionText) : t.chars ≠ [] :=
  List.append_ne_nil_of_left_ne_nil t.major.nonempty _

/-! ### Between quotes -/

namespace VersionFile.Scan

/-- Within a text on one line, all is content up to the quote or the end of the line. -/
theorem tokens_short_append {quote : Char} {content cs : List Char}
    (inside : ∀ c ∈ cs, c ≠ quote ∧ c ≠ '\n') (rest : List Char) :
    (short quote content).tokens (cs ++ rest) = (short quote (content ++ cs)).tokens rest := by
  induction cs generalizing content with
  | nil => simp
  | cons c cs ih =>
    obtain ⟨unquoted, inline⟩ := inside c List.mem_cons_self
    rw [List.cons_append, tokens]
    simp only [step, if_neg unquoted, if_neg inline, List.nil_append]
    rw [ih fun d hd => inside d (List.mem_cons_of_mem c hd), List.append_assoc,
      List.singleton_append]

theorem tokens_short_quote {quote : Char} {content : List Char} (nonempty : content ≠ [])
    (rest : List Char) : (short quote content).tokens (quote :: rest) =
      textToken content :: (plain []).tokens rest := by
  simp [tokens, step, nonempty]

end VersionFile.Scan

/-- The assignment of a version in the version file, up to the second quote. -/
def VersionFile.assignment (version : String) : String :=
  versionName ++ " = \"" ++ version ++ "\""

open VersionFile in
/-- The assignment of a version is read as one: a text between quotes that is the version. -/
def IsLiteral (version : String) : Prop :=
  (Scan.plain []).tokens (assignment version).toList =
    [.name versionName, .mark '=', .literal (.text version)]

open VersionFile in
/-- A written version is a text between quotes unless a line feed follows it. -/
theorem VersionText.isLiteral_iff (t : VersionText) (feed : Bool) :
    IsLiteral (t.text feed) ↔ feed = false := by
  have line : (assignment (t.text feed)).toList =
      "__version__ = \"".toList ++ (t.chars ++ (ending feed ++ ['"'])) := by
    simp [assignment, versionName, text]
  have found : (Scan.plain []).found "__version__ = \"".toList =
      [.name versionName, .mark '='] := by decide +kernel
  have after : (Scan.plain []).after "__version__ = \"".toList = .short '"' [] := by decide +kernel
  rw [IsLiteral, line, Scan.tokens_append, found, after, Scan.tokens_short_append t.inside_quotes]
  cases feed with
  | true => simp [ending, Scan.tokens, Scan.step, Scan.plainStep, Scan.finish, isWordChar, wordTokens]
  | false =>
    have quoted : (Scan.short '"' t.chars).tokens ['"'] = textToken t.chars :: (Scan.plain []).tokens [] :=
      Scan.tokens_short_quote t.chars_ne_nil []
    rw [show (Scan.short '"' ([] ++ t.chars)).tokens (ending false ++ ['"']) = _ from quoted]
    simp [textToken, text, ending, Scan.tokens, Scan.finish, wordTokens]

/-! ### In commands -/

/-- A character that a shell takes for a part of a word wherever it stands: a letter, a decimal digit
of any script, a point, a hyphen, an underscore or a slash. -/
def isWordPart (c : Char) : Bool :=
  Text.isDecimalDigit c || c.isAlpha || ['.', '-', '_', '/'].contains c

/-- A text that a shell takes for a word as it is written. -/
def isWord (w : String) : Bool := !w.toList.isEmpty && w.toList.all isWordPart

/-- A text that a shell takes for one command of the given words: they are written as they are, with
a blank between each and the next, and a line feed may end the command. -/
inductive IsSingleCommand : String → List String → Prop where
  | intro {words : List String} (feed : Bool) : words ≠ [] →
      (∀ w ∈ words, isWord w = true) →
        IsSingleCommand (" ".intercalate words ++ String.ofList (ending feed)) words

theorem VersionText.isWordPart_of_mem {t : VersionText} {c : Char} (h : c ∈ t.chars) :
    isWordPart c = true := by
  rcases mem_chars h with digit | letter
  · simp [isWordPart, digit]
  · have parts : ['.', 'd', 'e', 'v', 'a', 'b', 'r', 'c'].all isWordPart = true := by decide
    exact List.all_eq_true.1 parts c letter

/-- The words of the commands that an update to a version issues, the push apart. -/
def commandWords (t : VersionText) : List (List String) := [
  ["git", "ls-files", "-m"],
  ["git", "add", VersionFile.path],
  ["git", "commit", "-m", "v" ++ t.text false],
  ["git", "tag", "v" ++ t.text false]]

theorem VersionText.isWord_text (t : VersionText) : isWord ("v" ++ t.text false) = true := by
  have same : ("v" ++ t.text false).toList = 'v' :: t.chars := by simp [text, ending]
  have first : isWordPart 'v' = true := by decide
  have rest : t.chars.all isWordPart = true := List.all_eq_true.2 fun _ hc => isWordPart_of_mem hc
  rw [isWord, same, List.all_cons, first, rest]
  rfl

theorem VersionText.text_eq (t : VersionText) (feed : Bool) :
    t.text feed = t.text false ++ String.ofList (ending feed) := by
  simp [text, ending, String.ofList_append]

/-- A command that ends in a version is a single one. -/
theorem VersionText.isSingleCommand (t : VersionText) (feed : Bool) {words : List String}
    (fixed : ∀ w ∈ words, isWord w = true) (front : String)
    (same : " ".intercalate (words ++ ["v" ++ t.text false]) = front ++ "v" ++ t.text false) :
    IsSingleCommand (front ++ "v" ++ t.text feed) (words ++ ["v" ++ t.text false]) := by
  rw [t.text_eq feed, ← String.append_assoc, ← same]
  refine .intro feed (by simp) fun w hw => ?_
  rcases List.mem_append.1 hw with hw | hw
  · exact fixed w hw
  · rw [List.mem_singleton.1 hw]
    exact t.isWord_text

open Job in
/-- The commands that an update issues with a version are single commands. -/
theorem isSingleCommand_of_committing (t : VersionText) (feed : Bool) {command : String}
    (h : command ∈ listing :: committing (t.text feed)) :
    ∃ words ∈ commandWords t, IsSingleCommand command words := by
  have fixed : ∀ w ∈ ["git", "ls-files", "-m", "add", VersionFile.path, "commit", "tag"],
      isWord w = true := by decide +kernel
  have plain {words : List String} {text : String} (same : " ".intercalate words = text)
      (nonempty : words ≠ [])
      (known : words ⊆ ["git", "ls-files", "-m", "add", VersionFile.path, "commit", "tag"]) :
      IsSingleCommand text words := by
    have single := IsSingleCommand.intro false nonempty fun w hw => fixed w (known hw)
    simpa [ending, same] using single
  simp only [committing, List.mem_cons, List.not_mem_nil, or_false] at h
  rcases h with rfl | rfl | rfl | rfl
  · exact ⟨["git", "ls-files", "-m"], by simp [commandWords],
      plain (by decide +kernel) (by simp) (by simp)⟩
  · exact ⟨["git", "add", VersionFile.path], by simp [commandWords],
      plain (by decide +kernel) (by simp) (by simp)⟩
  · refine ⟨["git", "commit", "-m"] ++ ["v" ++ t.text false], by simp [commandWords], ?_⟩
    refine t.isSingleCommand feed (fun w hw => fixed w ?_) "git commit -m " ?_
    · simp only [List.mem_cons, List.not_mem_nil, or_false] at hw
      rcases hw with rfl | rfl | rfl <;> simp
    · exact String.toList_inj.1 (by simp)
  · refine ⟨["git", "tag"] ++ ["v" ++ t.text false], by simp [commandWords], ?_⟩
    refine t.isSingleCommand feed (fun w hw => fixed w ?_) "git tag " ?_
    · simp only [List.mem_cons, List.not_mem_nil, or_false] at hw
      rcases hw with rfl | rfl <;> simp
    · exact String.toList_inj.1 (by simp)

/-! ### The check -/

namespace Job

/-- An update gets past the check of the format. -/
def PassesFormatCheck (shell : Shell) (o : VersionUpdate) (b : Bench) : Prop :=
  ∀ b', updateWork shell o b ≠ .error .badVersionFormat b'

theorem passesFormatCheck_iff {shell : Shell} {o : VersionUpdate} {b : Bench} :
    PassesFormatCheck shell o b ↔ Version.isAccepted o.version = true := by
  constructor
  · intro passes
    refine eq_true_of_ne_false fun bad => passes b ?_
    exact updateWork_of_rejects (.format bad)
  · intro good b' rejected
    cases rejects_of_updateWork rejected rfl with
    | format bad =>
      rw [good] at bad
      cases bad

/-- The format check lets through written versions, and written versions with a line feed after
them, which are no literals. Each command is a single one, the version in one of its words, but for
the command that pushes. -/
theorem format_check_passes_line_feeds (shell : Shell) (o : VersionUpdate) (b : Bench) :
    (PassesFormatCheck shell o b ↔ ∃ (t : VersionText) (feed : Bool), o.version = t.text feed) ∧
      ∀ (t : VersionText) (feed : Bool), o.version = t.text feed →
        (IsLiteral o.version ↔ feed = false) ∧
          ∃ new, ((updateWork shell o).after b).issued = b.issued ++ new ∧
            ∀ command ∈ new, ∃ text, command.text = shell.rooted text ∧
              (text ∈ pushing o.push ∨ ∃ words ∈ commandWords t, IsSingleCommand text words) := by
  refine ⟨passesFormatCheck_iff.trans isAccepted_iff, fun t feed written => ⟨?_, ?_⟩⟩
  · rw [written]
    exact t.isLiteral_iff feed
  · obtain ⟨new, planned, issued⟩ := issued_of_updateWork shell o b
    refine ⟨new, issued, fun command issued => ?_⟩
    rcases List.mem_cons.1 (planned.subset issued) with rfl | later
    · exact ⟨listing, rfl, .inr (isSingleCommand_of_committing t feed List.mem_cons_self)⟩
    · obtain ⟨text, given, rfl⟩ := List.mem_map.1 later
      refine ⟨text, rfl, ?_⟩
      rcases List.mem_append.1 given with commits | pushes
      · rw [written] at commits
        exact .inr (isSingleCommand_of_committing t feed (List.mem_cons_of_mem _ commits))
      · exact .inl pushes

/-- The version that is written by three ASCII digits. -/
def digitVersion (major minor patch : Fin 10) : VersionText :=
  let digit (n : Fin 10) : DigitRun := {
    chars := [Nat.digitChar n]
    nonempty := by simp
    decimal := List.forall_mem_singleton.2 (by revert n; decide) }
  ⟨digit major, digit minor, digit patch, none⟩

open Invocation in
theorem line_feed_passes_format_check :
    let o : VersionUpdate := ⟨"0.2.0\n", false, false⟩
    let b := projectAt "0.1.0" []
    o.version = (digitVersion 0 2 0).text true ∧ PassesFormatCheck tidy o b ∧
      ¬IsLiteral o.version ∧
        ∃ new, ((updateWork tidy o).after b).issued = b.issued ++ new ∧
          ∀ command ∈ new, ∃ text, command.text = tidy.rooted text ∧ (text ∈ pushing o.push ∨
            ∃ words ∈ commandWords (digitVersion 0 2 0), IsSingleCommand text words) := by
  intro o b
  have written : o.version = (digitVersion 0 2 0).text true := by decide +kernel
  obtain ⟨passes, told⟩ := format_check_passes_line_feeds tidy o b
  obtain ⟨literal, commands⟩ := told _ _ written
  exact ⟨written, passes.2 ⟨_, _, written⟩, mt literal.1 (by decide), commands⟩

end Job

end DirectiveSchema.Release

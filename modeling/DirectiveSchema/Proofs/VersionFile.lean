import DirectiveSchema.Proofs.VersionOrder
import DirectiveSchema.Release.Package

/-!
The version file through updates. No version occurs in the file beside the one that it declares, so
to replace that version wherever it occurs is to write the file of the new one. Both ways to read
the file, token by token and by its lines, find what is written there; so they agree after every
update, and after any number of them.
-/
namespace DirectiveSchema.Release

open VersionText

/-! ### Where a version occurs -/

/-- A version in ASCII digits. -/
def VersionText.IsAscii (t : VersionText) : Prop := ∀ c ∈ t.chars, c.toNat < 128

theorem isDigit_of_ascii {c : Char} (digit : Text.isDecimalDigit c = true) (ascii : c.toNat < 128) :
    c.isDigit = true := by
  have first : ∀ z ∈ Text.zeroDigits, z < 128 → z = 0x30 := by decide
  obtain ⟨n, value⟩ := Option.isSome_iff_exists.1 digit
  obtain ⟨z, found, -⟩ := Option.map_eq_some_iff.1 value
  have range := List.find?_some found
  simp only [Bool.and_eq_true, decide_eq_true_eq] at range
  obtain rfl := first z (List.mem_of_find?_eq_some found) (by omega)
  simpa [Char.isDigit, UInt32.le_iff_toNat_le] using And.intro range.1 (Nat.le_of_lt_succ range.2)

/-- A version starts with a digit, and after it comes another or a point. -/
theorem VersionText.IsAscii.exists_front {t : VersionText} (ascii : t.IsAscii) :
    ∃ c d rest, t.chars = c :: d :: rest ∧ c.isDigit = true ∧ (d.isDigit = true ∨ d = '.') := by
  have digit {c : Char} (h : c ∈ t.major.chars) : c.isDigit = true :=
    isDigit_of_ascii (t.major.decimal c h) (ascii c (List.mem_append_left _ h))
  obtain ⟨c, cs, major⟩ := List.exists_cons_of_ne_nil t.major.nonempty
  cases cs with
  | nil => exact ⟨c, '.', _, by rw [chars, major]; rfl, digit (by simp [major]), .inr rfl⟩
  | cons d cs =>
    exact ⟨c, d, _, by rw [chars, major]; rfl, digit (by simp [major]), .inl (digit (by simp [major]))⟩

/-- Whether no version can start in a text, whatever follows: after a digit comes neither a digit
nor a point. -/
def holdsNoVersion : List Char → Bool
  | [] => true
  | c :: cs =>
    (!c.isDigit || match cs with
      | [] => false
      | d :: _ => !d.isDigit && d != '.') && holdsNoVersion cs

/-- Where no version can start, none is replaced. -/
theorem VersionText.IsAscii.replaceAll_append {t : VersionText} (ascii : t.IsAscii) (new : List Char)
    {cs : List Char} (free : holdsNoVersion cs = true) (rest : List Char) :
    Text.replaceAll t.chars new (cs ++ rest) = cs ++ Text.replaceAll t.chars new rest := by
  obtain ⟨c, d, more, same, digit, next⟩ := ascii.exists_front
  induction cs with
  | nil => rfl
  | cons x cs ih =>
    simp only [holdsNoVersion, Bool.and_eq_true] at free
    rw [List.cons_append, Text.replaceAll_cons new, ih free.2, List.cons_append]
    rw [same, List.cons_prefix_cons]
    rintro ⟨rfl, occurs⟩
    cases cs with
    | nil => simp [digit] at free
    | cons y cs =>
      obtain ⟨rfl, -⟩ := List.cons_prefix_cons.1 occurs
      rcases next with next | rfl <;> simp_all

/-! ### The parts of the file -/

namespace VersionFile

/-- The lines of the file before the one with the version. -/
def opening : String :=
  "# -*- coding: utf-8 -*-\n\"\"\"\nPackage information.\n\"\"\"\n\n__title__ = \"gql_directives\"\n__description__ = \"GraphQL directive definitions and built-in directives.\"\n"

/-- The line with the version, up to the version. -/
def assigning : String := "__version__ = \""

/-- What follows the version. -/
def closing : String := "\"\n__license__ = \"MIT\"\n"

theorem toList_template (version : String) : (template version).toList =
    opening.toList ++ (assigning.toList ++ (version.toList ++ closing.toList)) := by
  have lines : "# -*- coding: utf-8 -*-\n\"\"\"\nPackage information.\n\"\"\"\n\n" ++
      "__title__ = \"gql_directives\"\n" ++
      "__description__ = \"GraphQL directive definitions and built-in directives.\"\n" = opening := by
    decide +kernel
  have parts : template version = opening ++ assigning ++ version ++ closing := by
    rw [← lines]
    rfl
  rw [parts, String.toList_append, String.toList_append, String.toList_append, List.append_assoc,
    List.append_assoc]

/-- To replace the version in the file is to write the file of another one. -/
theorem replaceAll_template {t : VersionText} (ascii : t.IsAscii) (version : String) :
    Text.replaceAll t.chars version.toList (template (t.text false)).toList =
      (template version).toList := by
  have last : Text.replaceAll t.chars version.toList closing.toList = closing.toList := by
    have free : holdsNoVersion closing.toList = true := by decide +kernel
    have kept := ascii.replaceAll_append version.toList free []
    have none : Text.replaceAll t.chars version.toList [] = [] := by
      rw [Text.replaceAll, if_neg (by simpa using t.chars_ne_nil), Text.replaceFrom]
    rwa [none, List.append_nil] at kept
  have text : (t.text false).toList = t.chars := by simp [text, ending]
  have free : holdsNoVersion opening.toList = true := by
    rw [opening, String.toList_ofList]
    decide
  rw [toList_template, toList_template, ascii.replaceAll_append _ free,
    ascii.replaceAll_append _ (by decide +kernel), text, Text.replaceAll_append t.chars_ne_nil, last]

/-! ### The two readings -/

theorem declared?_template (t : VersionText) :
    declared? (template (t.text false)).toList = some (.text (t.text false)) := by
  have text : (t.text false).toList = t.chars := by simp [text, ending]
  have after : (Scan.plain []).after (opening.toList ++ assigning.toList) = .short '"' [] := by
    rw [opening, String.toList_ofList]
    decide +kernel
  have found : (Scan.plain []).found (opening.toList ++ assigning.toList) = [
      .literal (.text "\nPackage information.\n"),
      .name "__title__", .mark '=', .literal (.text "gql_directives"),
      .name "__description__", .mark '=',
      .literal (.text "GraphQL directive definitions and built-in directives."),
      .name versionName, .mark '='] := by
    rw [opening, String.toList_ofList]
    decide +kernel
  have rest : closing.toList = '"' :: "\n__license__ = \"MIT\"\n".toList := by decide +kernel
  have license : (Scan.plain []).tokens "\n__license__ = \"MIT\"\n".toList =
      [.name "__license__", .mark '=', .literal (.text "MIT")] := by decide +kernel
  rw [declared?, toList_template, ← List.append_assoc, Scan.tokens_append, found, after, text,
    Scan.tokens_short_append t.inside_quotes, rest,
    Scan.tokens_short_quote (by simpa using t.chars_ne_nil), license,
    List.nil_append]
  have same : textToken t.chars = .literal (.text (t.text false)) := by
    rw [textToken, ← text, String.ofList_toList]
  rw [same]
  rfl

end VersionFile

/-- A line is split off at its end. -/
theorem lines_line_append {line : List Char} (inline : '\n' ∉ line) (rest : List Char) :
    Text.lines (line ++ '\n' :: rest) = (line ++ ['\n']) :: Text.lines rest := by
  induction line with
  | nil => simp [Text.lines]
  | cons c line ih =>
    simp only [List.mem_cons, not_or] at inline
    simp [Text.lines, Ne.symm inline.1, ih inline.2]

/-- What follows the end of a line makes lines of its own. -/
theorem lines_append (cs rest : List Char) :
    Text.lines (cs ++ '\n' :: rest) = Text.lines (cs ++ ['\n']) ++ Text.lines rest := by
  induction cs with
  | nil => simp [Text.lines]
  | cons c cs ih =>
    obtain ⟨l, ls, first⟩ : ∃ l ls, Text.lines (cs ++ ['\n']) = l :: ls := by
      refine List.exists_cons_of_ne_nil fun none => ?_
      have all := Text.flatten_lines (cs ++ ['\n'])
      simp [none] at all
    by_cases feed : c = '\n'
    · simp [Text.lines, feed, ih]
    · simp [Text.lines, feed, ih, first]

namespace VersionFile

theorem quotedPart?_quoted {before inner after : List Char} (outside : '"' ∉ before)
    (inside : '"' ∉ inner) : quotedPart? (before ++ '"' :: (inner ++ '"' :: after)) = some inner := by
  have split {cs : List Char} (free : '"' ∉ cs) (rest : List Char) :
      (cs ++ '"' :: rest).splitOn '"' = cs :: rest.splitOn '"' :=
    List.splitOnP_append_cons_of_forall_mem
      (fun c hc => beq_eq_false_iff_ne.2 (ne_of_mem_of_not_mem hc free)) '"' (by simp) rest
  simp [quotedPart?, split outside, split inside]

theorem written_template (t : VersionText) :
    written (template (t.text false)).toList = .ok (t.text false) := by
  have text : (t.text false).toList = t.chars := by simp [text, ending]
  have front : opening.toList = opening.toList.dropLast ++ ['\n'] := by
    rw [opening, String.toList_ofList]
    rfl
  have before : assigning.toList = "__version__ = ".toList ++ ['"'] := by decide +kernel
  have after : closing.toList = '"' :: '\n' :: "__license__ = \"MIT\"\n".toList := by decide +kernel
  have line : Text.lines (assigning.toList ++ (t.chars ++ closing.toList)) =
      ("__version__ = ".toList ++ '"' :: (t.chars ++ ['"', '\n'])) ::
        Text.lines "__license__ = \"MIT\"\n".toList := by
    have inline : '\n' ∉ "__version__ = ".toList ++ '"' :: (t.chars ++ ['"']) := by
      have fixed : '\n' ∉ "__version__ = ".toList := by decide +kernel
      simp only [List.mem_append, List.mem_cons, List.not_mem_nil, or_false, not_or]
      exact ⟨fixed, by decide, t.not_mem_chars, by decide⟩
    have split := lines_line_append inline "__license__ = \"MIT\"\n".toList
    rw [before, after]
    simpa only [List.append_assoc, List.cons_append, List.nil_append] using split
  have earlier : (Text.lines opening.toList).find? versionName.toList.isPrefixOf = none := by
    rw [opening, String.toList_ofList]
    decide +kernel
  have starts : versionName.toList.isPrefixOf
      ("__version__ = ".toList ++ '"' :: (t.chars ++ ['"', '\n'])) = true := by
    have named : "__version__ = ".toList = versionName.toList ++ " = ".toList := by decide +kernel
    rw [named, List.isPrefixOf_iff_prefix, List.append_assoc]
    exact List.prefix_append _ _
  have part : quotedPart? ("__version__ = ".toList ++ '"' :: (t.chars ++ ['"', '\n'])) = some t.chars :=
    quotedPart?_quoted (by decide +kernel) t.not_mem_chars
  rw [written, toList_template, text, front, List.append_assoc, List.singleton_append, lines_append,
    ← front, line, List.find?_append, earlier, Option.none_or, List.find?_cons_of_pos starts]
  simp only [part]
  rw [← text, String.ofList_toList]

/-- The file has no line ends but line feeds. -/
theorem unifyLineEnds_template (t : VersionText) :
    Text.unifyLineEnds (template (t.text false)).toList = (template (t.text false)).toList := by
  refine Text.unifyLineEnds_eq_self ?_
  have first : '\r' ∉ opening.toList := by
    rw [opening, String.toList_ofList]
    decide
  have name : '\r' ∉ assigning.toList := by decide +kernel
  have last : '\r' ∉ closing.toList := by decide +kernel
  have version : '\r' ∉ (t.text false).toList := by
    simpa [text, ending] using t.not_mem_chars
  rw [toList_template]
  simp [first, name, version, last]

end VersionFile

/-! ### Updates one after another -/

namespace Job

/-- A workspace holds the version file of a version, and both ways to read the file, from whichever
folder, give that version. -/
structure Shows (w : Workspace) (version : String) : Prop where
  file : w.text? VersionFile.path = some (VersionFile.template version)
  declared : Declares w (VersionFile.template version).toList version
  written : ∀ folder, Package.writtenVersion folder w = .ok version

theorem shows_of_text? {w : Workspace} {t : VersionText}
    (file : w.text? VersionFile.path = some (VersionFile.template (t.text false))) :
    Shows w (t.text false) where
  file := file
  declared := {
    read := by rw [Workspace.read_of_text? file, VersionFile.unifyLineEnds_template]
    declared := VersionFile.declared?_template t }
  written folder := by
    have read : Package.readIn folder w VersionFile.path =
        .ok (VersionFile.template (t.text false)).toList := by
      rw [Package.readIn, Workspace.read_of_text? file, VersionFile.unifyLineEnds_template]
    simp only [Package.writtenVersion, read, bind, Except.bind, VersionFile.written_template]

/-- An update that completes: the version file is that of the new version, the other files stay, and
the commands of the plan are issued. -/
structure Updated (shell : Shell) (o : VersionUpdate) (b b' : Bench) : Prop where
  file : b'.workspace.text? VersionFile.path = some (VersionFile.template o.version)
  others : ∀ path, path ≠ VersionFile.path → b'.workspace.text? path = b.workspace.text? path
  issued : b'.issued = b.issued ++ planned shell o

theorem updated_of_updateWork {shell : Shell} {o : VersionUpdate} {b b' : Bench} {c : VersionText}
    (ascii : c.IsAscii)
    (file : b.workspace.text? VersionFile.path = some (VersionFile.template (c.text false)))
    (completed : updateWork shell o b = .ok () b') : Updated shell o b b' := by
  obtain ⟨text, current, increments, rfl⟩ := completed_updateWork completed
  obtain ⟨rfl, rfl⟩ := increments.declares.unique (shows_of_text? file).declared
  have chars : (c.text false).toList = c.chars := by simp [VersionText.text, ending]
  have new : String.ofList (Text.replaceAll (c.text false).toList o.version.toList
      (VersionFile.template (c.text false)).toList) = VersionFile.template o.version := by
    rw [chars, VersionFile.replaceAll_template ascii, String.ofList_toList]
  exact {
    file := by rw [rewritten, new, Workspace.text?_write_self]
    others := fun path other => Workspace.text?_write_of_ne _ _ other
    issued := rfl }

/-- An update to a later version completes if all commands are answered and nothing else is modified;
with force it need not be later, and other files may be modified. -/
theorem exists_updated {shell : Shell} {o : VersionUpdate} {b : Bench} {c : VersionText}
    (ascii : c.IsAscii)
    (file : b.workspace.text? VersionFile.path = some (VersionFile.template (c.text false)))
    (accepted : Version.isAccepted o.version = true)
    (later : o.force = true ∨ c.text false < o.version)
    (answered : ∀ command ∈ planned shell o, shell.fails command.text = false)
    (alone : o.force = true ∨ Text.strip (shell.output (shell.rooted listing)) = VersionFile.path) :
    ∃ b', updateWork shell o b = .ok () b' ∧ Updated shell o b b' := by
  have completed := updateWork_of_answered ⟨accepted, (shows_of_text? file).declared, later⟩ answered
    alone
  exact ⟨_, completed, updated_of_updateWork ascii file completed⟩

/-- Updates that complete one after another, each with a shell of its own. -/
inductive Completes : Bench → List (Shell × VersionUpdate) → Bench → Prop where
  | none (b : Bench) : Completes b [] b
  | next {shell : Shell} {o : VersionUpdate} {updates : List (Shell × VersionUpdate)}
      {b b₁ b' : Bench} : updateWork shell o b = .ok () b₁ → Completes b₁ updates b' →
        Completes b ((shell, o) :: updates) b'

/-- The version that updates leave: the one that the last of them asks for. -/
def lastVersion (current : String) : List (Shell × VersionUpdate) → String
  | [] => current
  | (_, o) :: updates => lastVersion o.version updates

/-- However many updates complete, the version file is that of the last version, and both ways to
read it give that version. No other file changes, and what is issued are the plans of the updates in
their order. -/
theorem completed_updates_are_read_back {c : VersionText} (ascii : c.IsAscii)
    {updates : List (Shell × VersionUpdate)} {b b' : Bench}
    (file : b.workspace.text? VersionFile.path = some (VersionFile.template (c.text false)))
    (asked : ∀ u ∈ updates, ∃ v : VersionText, v.IsAscii ∧ u.2.version = v.text false)
    (completes : Completes b updates b') :
    Shows b'.workspace (lastVersion (c.text false) updates) ∧
      (∀ path, path ≠ VersionFile.path → b'.workspace.text? path = b.workspace.text? path) ∧
      b'.issued = b.issued ++ updates.flatMap fun u => planned u.1 u.2 := by
  induction completes generalizing c with
  | none b => exact ⟨shows_of_text? file, fun _ _ => rfl, by simp⟩
  | next completed _ ih =>
    obtain ⟨v, ascii', written⟩ := asked _ List.mem_cons_self
    have updated := updated_of_updateWork ascii file completed
    obtain ⟨shows', others, issued⟩ := ih ascii' (written ▸ updated.file)
      fun u later => asked u (List.mem_cons_of_mem _ later)
    refine ⟨?_, fun path other => (others path other).trans (updated.others path other), ?_⟩
    · rw [lastVersion, written]
      exact shows'
    · rw [issued, updated.issued, List.append_assoc]
      rfl

theorem isAscii_digitVersion (major minor patch : Fin 10) :
    (digitVersion major minor patch).IsAscii := by
  have digit (n : Fin 10) : (Nat.digitChar n).toNat < 128 := by revert n; decide
  simp [VersionText.IsAscii, VersionText.chars, digitVersion, VersionText.stageChars, digit]

open Invocation in
/-- An update to the next version and a push that is forced to go back. -/
theorem updates_there_and_back_are_read_back :
    let first : VersionUpdate := ⟨"0.2.0", false, false⟩
    let second : VersionUpdate := ⟨"0.1.0", true, true⟩
    let w : Workspace :=
      ⟨[("README.md", "0.1.0"), (VersionFile.path, VersionFile.template "0.1.0")]⟩
    ∃ b', Completes ⟨w, []⟩ [(tidy, first), (tidy, second)] b' ∧
      Shows b'.workspace "0.1.0" ∧ b'.workspace.text? "README.md" = some "0.1.0" ∧
        b'.issued = planned tidy first ++ planned tidy second := by
  intro first second w
  have old : (digitVersion 0 1 0).text false = "0.1.0" := by decide +kernel
  have new : (digitVersion 0 2 0).text false = "0.2.0" := by decide +kernel
  have answered (o : VersionUpdate) : ∀ command ∈ planned tidy o, tidy.fails command.text = false :=
    fun _ _ => rfl
  have alone : Text.strip (tidy.output (tidy.rooted listing)) = VersionFile.path := by decide +kernel
  have file : w.text? VersionFile.path = some (VersionFile.template "0.1.0") := by decide +kernel
  obtain ⟨b₁, completed, updated⟩ := exists_updated (b := ⟨w, []⟩) (isAscii_digitVersion 0 1 0)
    (old ▸ file) (by decide +kernel) (.inr (by decide +kernel)) (answered first) (.inr alone)
  obtain ⟨b₂, completed', updated'⟩ := exists_updated (isAscii_digitVersion 0 2 0)
    (updated.file.trans (by rw [new])) (by decide +kernel) (.inl rfl) (answered second) (.inl rfl)
  have completes := Completes.next completed (.next completed' (.none b₂))
  have asked : ∀ u ∈ [(tidy, first), (tidy, second)],
      ∃ v : VersionText, v.IsAscii ∧ u.2.version = v.text false := by
    rintro _ (_ | ⟨_, _ | ⟨_, ⟨⟩⟩⟩)
    · exact ⟨_, isAscii_digitVersion 0 2 0, new.symm⟩
    · exact ⟨_, isAscii_digitVersion 0 1 0, old.symm⟩
  obtain ⟨shows', others, issued⟩ :=
    completed_updates_are_read_back (isAscii_digitVersion 0 1 0) (old ▸ file) asked completes
  exact ⟨b₂, completes, shows', (others _ (by decide +kernel)).trans (by decide +kernel), issued⟩

end Job

end DirectiveSchema.Release

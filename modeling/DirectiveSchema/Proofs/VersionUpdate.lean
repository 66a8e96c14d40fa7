import DirectiveSchema.BuiltIn
import DirectiveSchema.Evaluation
import DirectiveSchema.Proofs.Keeps
import DirectiveSchema.Release.Invocation

/-!
Rejected updates of the version. An update checks the format of the new version, then its order, and
writes it into the version file before it asks for the modified files: only then can the version
file be all that is modified. So a rejection for the first two reasons leaves everything as it was,
and one for the third leaves the new version in the file. No rejection comes after a commit.
-/
namespace DirectiveSchema.Release

namespace Work

variable {α β : Type} {x : Work α} {f : α → Work β} {b b' : Bench} {a : α} {e : Failure}

theorem get_bind (f : Bench → Work α) (b : Bench) : (MonadState.get >>= f) b = f b b := rfl

theorem bind_of_ok (h : x b = .ok a b') : (x >>= f) b = f a b' := by
  simp only [bind, EStateM.bind, h]

theorem bind_of_error (h : x b = .error e b') : (x >>= f) b = .error e b' := by
  simp only [bind, EStateM.bind, h]

theorem ofExcept_of_ok {r : Except Failure α} (h : r = .ok a) :
    (MonadExcept.ofExcept r : Work α) b = .ok a b := by
  rw [h]
  rfl

theorem ofExcept_of_error {r : Except Failure α} (h : r = .error e) :
    (MonadExcept.ofExcept r : Work α) b = .error e b := by
  rw [h]
  rfl

theorem refuseIf_of_false {condition : Bool} (h : condition = false) (e : Failure) (b : Bench) :
    refuseIf condition e b = .ok () b := by
  rw [h]
  rfl

theorem refuseIf_of_true {condition : Bool} (h : condition = true) (e : Failure) (b : Bench) :
    refuseIf condition e b = .error e b := by
  rw [h]
  rfl

end Work

theorem Workspace.read_of_text? {w : Workspace} {path text : String} (h : w.text? path = some text)
    (shown : String) : w.read path shown = .ok (Text.unifyLineEnds text.toList) := by
  simp only [read, h]

/-- A file that cannot be read is no reason to reject anything. -/
theorem Workspace.kind_of_read {w : Workspace} {path shown : String} {e : Failure}
    (h : w.read path shown = .error e) : e.kind ≠ .exit := by
  unfold read at h
  split at h
  · cases h
  · cases h
    split <;> simp [Failure.kind]

namespace Shell

variable {shell : Shell} {b b' : Bench} {e : Failure}

/-- A command that ends the work does so because it failed. -/
theorem kind_of_issue {text : String} {options : List CommandOption}
    (h : shell.issue text options b = .error e b') : e.kind = .command := by
  by_cases fails : shell.fails text = true
  · simp only [issue, fails, if_true] at h
    cases h
    rfl
  · simp only [issue, fails] at h
    cases h

theorem kind_of_issueAllAtRoot {options : List CommandOption} {texts : List String}
    (h : shell.issueAllAtRoot options texts b = .error e b') : e.kind = .command := by
  induction texts generalizing b with
  | nil => cases h
  | cons text texts ih =>
    unfold issueAllAtRoot at h
    cases run : shell.issueAtRoot text options b with
    | ok out b₁ =>
      rw [Work.bind_of_ok run] at h
      exact ih h
    | error e₁ b₁ =>
      rw [Work.bind_of_error run] at h
      cases h
      exact kind_of_issue run

theorem kind_of_issueInTurn {options : List CommandOption} {texts more : List String}
    {goesOn : Bool} (h : (do
      shell.issueAllAtRoot options texts
      if goesOn then shell.issueAllAtRoot options more : Work Unit) b = .error e b') :
    e.kind = .command := by
  cases run : shell.issueAllAtRoot options texts b with
  | error e₁ b₁ =>
    rw [Work.bind_of_error run] at h
    cases h
    exact kind_of_issueAllAtRoot run
  | ok u b₁ =>
    rw [Work.bind_of_ok run] at h
    cases goesOn with
    | true => exact kind_of_issueAllAtRoot h
    | false => cases h

theorem answered_of_issueAtRoot {text out : String} {options : List CommandOption}
    (h : shell.issueAtRoot text options b = .ok out b') :
    shell.fails (shell.rooted text) = false ∧ out = shell.output (shell.rooted text) ∧
      b' = { b with issued := b.issued ++ [⟨shell.rooted text, options⟩] } := by
  by_cases fails : shell.fails (shell.rooted text) = true
  · simp only [issueAtRoot, issue, fails, if_true] at h
    cases h
  · simp only [issueAtRoot, issue, fails] at h
    cases h
    exact ⟨by simpa using fails, rfl, rfl⟩

theorem issueAtRoot_of_answered {text : String} (h : shell.fails (shell.rooted text) = false)
    (options : List CommandOption) (b : Bench) :
    shell.issueAtRoot text options b = .ok (shell.output (shell.rooted text))
      { b with issued := b.issued ++ [⟨shell.rooted text, options⟩] } := by
  simp only [issueAtRoot, issue, h]
  rfl

end Shell

namespace Job

variable {shell : Shell} {o : VersionUpdate} {b b' : Bench} {e : Failure} {text : List Char}
  {current : String}

/-- The version file holds a text that declares a version. -/
structure Declares (w : Workspace) (text : List Char) (current : String) : Prop where
  read : w.read VersionFile.path VersionFile.path = .ok text
  declared : VersionFile.declared? text = some (.text current)

theorem currentVersion_of_declares (h : Declares b.workspace text current) (force : Bool) :
    currentVersion force b = .ok current b := by
  unfold currentVersion
  rw [Work.get_bind, Work.bind_of_ok (Work.ofExcept_of_ok h.read)]
  simp only [h.declared]
  rfl

/-- Where no version is declared, the work ends, but the update is not rejected. -/
theorem currentVersion_cases (force : Bool) (b : Bench) :
    (∃ text current, Declares b.workspace text current) ∨
      ∃ e, e.kind ≠ .exit ∧ currentVersion force b = .error e b := by
  unfold currentVersion
  rw [Work.get_bind]
  cases read : b.workspace.read VersionFile.path VersionFile.path with
  | error e => exact .inr ⟨e, Workspace.kind_of_read read, rfl⟩
  | ok text =>
    rw [Work.bind_of_ok (Work.ofExcept_of_ok rfl)]
    cases declared : VersionFile.declared? text with
    | none => exact .inr ⟨.undeclaredVersion, by decide, rfl⟩
    | some l =>
      cases l with
      | text current => exact .inl ⟨text, current, read, declared⟩
      | number digits =>
        refine .inr ⟨if force then .irreplaceableVersion else .incomparableVersion, ?_, rfl⟩
        split <;> decide

/-- The files once a new version stands in place of the current one. -/
def rewritten (w : Workspace) (text : List Char) (current version : String) : Workspace :=
  w.write VersionFile.path (String.ofList (Text.replaceAll current.toList version.toList text))

theorem replaceVersion_of_declares (h : Declares b.workspace text current) (version : String) :
    replaceVersion current version b =
      .ok () { b with workspace := rewritten b.workspace text current version } := by
  unfold replaceVersion
  rw [Work.get_bind, Work.bind_of_ok (Work.ofExcept_of_ok h.read)]
  rfl

/-- The files that are modified, as they are listed, are not the version file alone. -/
structure OthersModified (shell : Shell) : Prop where
  listed : shell.fails (shell.rooted listing) = false
  others : Text.strip (shell.output (shell.rooted listing)) ≠ VersionFile.path

/-- The bench after the modified files were listed. -/
def listed (shell : Shell) (b : Bench) : Bench :=
  { b with issued := b.issued ++ [⟨shell.rooted listing, [.hidden]⟩] }

/-- What is rejected at the commit is rejected before any command of it. -/
theorem rejected_commitVersion (h : commitVersion shell o b = .error e b')
    (exit : e.kind = .exit) :
    o.force = false ∧ OthersModified shell ∧ e = .otherChanges ∧ b' = listed shell b := by
  unfold commitVersion at h
  cases run : shell.issueAtRoot listing [.hidden] b with
  | error e₁ b₁ =>
    rw [Work.bind_of_error run] at h
    cases h
    rw [Shell.kind_of_issue run] at exit
    cases exit
  | ok modified b₁ =>
    obtain ⟨answered, rfl, rfl⟩ := Shell.answered_of_issueAtRoot run
    rw [Work.bind_of_ok run] at h
    cases others : !o.force && Text.strip (shell.output (shell.rooted listing)) !=
        VersionFile.path with
    | true =>
      rw [Work.bind_of_error (Work.refuseIf_of_true others _ _)] at h
      cases h
      simp only [Bool.and_eq_true, Bool.not_eq_true', bne_iff_ne] at others
      exact ⟨others.1, ⟨answered, others.2⟩, rfl, rfl⟩
    | false =>
      rw [Work.bind_of_ok (Work.refuseIf_of_false others _ _)] at h
      rw [Shell.kind_of_issueInTurn h] at exit
      cases exit

/-- The rejections of an update, each with when it comes and what it leaves. -/
inductive Rejects (shell : Shell) (o : VersionUpdate) (b : Bench) : Failure → Bench → Prop where
  | format : Version.isAccepted o.version = false → Rejects shell o b .badVersionFormat b
  | order {text : List Char} {current : String} :
      Version.isAccepted o.version = true → Declares b.workspace text current →
        o.force = false → ¬ current < o.version → Rejects shell o b (.notLater current) b
  | changes {text : List Char} {current : String} :
      Version.isAccepted o.version = true → Declares b.workspace text current →
        o.force = false → current < o.version → OthersModified shell →
          Rejects shell o b .otherChanges
            (listed shell { b with workspace := rewritten b.workspace text current o.version })

/-- An update is rejected for one of three reasons. -/
theorem rejects_of_updateWork (h : updateWork shell o b = .error e b') (exit : e.kind = .exit) :
    Rejects shell o b e b' := by
  unfold updateWork at h
  cases good : Version.isAccepted o.version with
  | false =>
    rw [good, Bool.not_false, Work.bind_of_error (Work.refuseIf_of_true rfl _ _)] at h
    cases h
    exact .format good
  | true =>
    rw [good, Bool.not_true, Work.bind_of_ok (Work.refuseIf_of_false rfl _ _)] at h
    rcases currentVersion_cases o.force b with ⟨text, current, declares⟩ | ⟨e₁, other, failed⟩
    · rw [Work.bind_of_ok (currentVersion_of_declares declares _)] at h
      cases late : !o.force && !decide (current < o.version) with
      | true =>
        rw [Work.bind_of_error (Work.refuseIf_of_true late _ _)] at h
        cases h
        simp only [Bool.and_eq_true, Bool.not_eq_true', decide_eq_false_iff_not] at late
        exact .order good declares late.1 late.2
      | false =>
        rw [Work.bind_of_ok (Work.refuseIf_of_false late _ _),
          Work.bind_of_ok (replaceVersion_of_declares declares _)] at h
        obtain ⟨unforced, others, rfl, rfl⟩ := rejected_commitVersion h exit
        simp only [unforced, Bool.not_false, Bool.true_and, Bool.not_eq_false',
          decide_eq_true_eq] at late
        exact .changes good declares unforced late others
    · rw [Work.bind_of_error failed] at h
      cases h
      exact absurd exit other

/-- Each of the reasons rejects an update. -/
theorem updateWork_of_rejects (h : Rejects shell o b e b') : updateWork shell o b = .error e b' := by
  unfold updateWork
  cases h with
  | format bad => rw [bad, Bool.not_false, Work.bind_of_error (Work.refuseIf_of_true rfl _ _)]
  | order good declares unforced late =>
    rw [good, Bool.not_true, Work.bind_of_ok (Work.refuseIf_of_false rfl _ _),
      Work.bind_of_ok (currentVersion_of_declares declares _),
      Work.bind_of_error (Work.refuseIf_of_true (by simp [unforced, late]) _ _)]
  | changes good declares unforced later others =>
    rw [good, Bool.not_true, Work.bind_of_ok (Work.refuseIf_of_false rfl _ _),
      Work.bind_of_ok (currentVersion_of_declares declares _),
      Work.bind_of_ok (Work.refuseIf_of_false (by simp [later]) _ _),
      Work.bind_of_ok (replaceVersion_of_declares declares _)]
    unfold commitVersion
    rw [Work.bind_of_ok (Shell.issueAtRoot_of_answered others.listed _ _),
      Work.bind_of_error (Work.refuseIf_of_true (by simp [unforced, others.others]) _ _)]
    rfl

/-! ### Repeated updates -/

/-- Two benches on which an update meets the same: the version file, and what was issued since. -/
structure Beside (before₁ before₂ : List Command) (b₁ b₂ : Bench) : Prop where
  file : ∃ text, b₁.workspace.text? VersionFile.path = some text ∧
    b₂.workspace.text? VersionFile.path = some text
  issued : ∃ new, b₁.issued = before₁ ++ new ∧ b₂.issued = before₂ ++ new

/-- Work that comes to the same on both benches. -/
def Repeats {α : Type} (before₁ before₂ : List Command) (x : Work α) : Prop :=
  ∀ b₁ b₂, Beside before₁ before₂ b₁ b₂ → ∃ b₁' b₂', Beside before₁ before₂ b₁' b₂' ∧
    ((∃ a, x b₁ = .ok a b₁' ∧ x b₂ = .ok a b₂') ∨ ∃ e, x b₁ = .error e b₁' ∧ x b₂ = .error e b₂')

namespace Repeats

variable {α β : Type} {before₁ before₂ : List Command} {x : Work α} {f : α → Work β}

theorem pure (a : α) : Repeats before₁ before₂ (pure a : Work α) :=
  fun b₁ b₂ h => ⟨b₁, b₂, h, .inl ⟨a, rfl, rfl⟩⟩

theorem throw (e : Failure) : Repeats before₁ before₂ (throw e : Work α) :=
  fun b₁ b₂ h => ⟨b₁, b₂, h, .inr ⟨e, rfl, rfl⟩⟩

theorem bind (hx : Repeats before₁ before₂ x) (hf : ∀ a, Repeats before₁ before₂ (f a)) :
    Repeats before₁ before₂ (x >>= f) := by
  intro b₁ b₂ beside
  obtain ⟨b₁', b₂', beside', ⟨a, ok₁, ok₂⟩ | ⟨e, error₁, error₂⟩⟩ := hx b₁ b₂ beside
  · rw [Work.bind_of_ok ok₁, Work.bind_of_ok ok₂]
    exact hf a b₁' b₂' beside'
  · exact ⟨b₁', b₂', beside', .inr ⟨e, Work.bind_of_error error₁, Work.bind_of_error error₂⟩⟩

theorem refuseIf (condition : Bool) (e : Failure) :
    Repeats before₁ before₂ (Work.refuseIf condition e) := by
  unfold Work.refuseIf
  split
  · exact throw e
  · exact pure ()

/-- What is read of the version file is the same. -/
theorem reading {g : List Char → Work α} (hg : ∀ text, Repeats before₁ before₂ (g text)) :
    Repeats before₁ before₂ (do
      let text ← MonadExcept.ofExcept ((← get).workspace.read VersionFile.path VersionFile.path)
      g text) := by
  intro b₁ b₂ beside
  obtain ⟨text, file₁, file₂⟩ := beside.file
  rw [Work.get_bind, Work.get_bind,
    Work.bind_of_ok (Work.ofExcept_of_ok (Workspace.read_of_text? file₁ _)),
    Work.bind_of_ok (Work.ofExcept_of_ok (Workspace.read_of_text? file₂ _))]
  exact hg _ b₁ b₂ beside

theorem currentVersion (force : Bool) :
    Repeats before₁ before₂ (currentVersion force) := by
  refine reading fun text => ?_
  cases VersionFile.declared? text with
  | none => exact throw _
  | some l =>
    cases l with
    | text current => exact pure _
    | number digits => exact throw _

theorem replaceVersion (current version : String) :
    Repeats before₁ before₂ (replaceVersion current version) := by
  refine reading fun text b₁ b₂ beside => ?_
  have beside' : Beside before₁ before₂
      { b₁ with workspace := rewritten b₁.workspace text current version }
      { b₂ with workspace := rewritten b₂.workspace text current version } :=
    ⟨⟨_, Workspace.text?_write_self _ _ _, Workspace.text?_write_self _ _ _⟩, beside.issued⟩
  exact ⟨_, _, beside', .inl ⟨(), rfl, rfl⟩⟩

theorem issueAtRoot (shell : Shell) (text : String) (options : List CommandOption) :
    Repeats before₁ before₂ (shell.issueAtRoot text options) := by
  intro b₁ b₂ beside
  obtain ⟨new, issued₁, issued₂⟩ := beside.issued
  have beside' : Beside before₁ before₂
      { b₁ with issued := b₁.issued ++ [⟨shell.rooted text, options⟩] }
      { b₂ with issued := b₂.issued ++ [⟨shell.rooted text, options⟩] } :=
    ⟨beside.file, new ++ [⟨shell.rooted text, options⟩], by simp [issued₁], by simp [issued₂]⟩
  refine ⟨_, _, beside', ?_⟩
  unfold Shell.issueAtRoot Shell.issue
  by_cases fails : shell.fails (shell.rooted text) = true
  · refine .inr ⟨.command (shell.rooted text), ?_, ?_⟩ <;> simp only [fails, if_true] <;> rfl
  · refine .inl ⟨shell.output (shell.rooted text), ?_, ?_⟩ <;> simp only [fails] <;> rfl

theorem issueAllAtRoot (shell : Shell) (options : List CommandOption) (texts : List String) :
    Repeats before₁ before₂ (shell.issueAllAtRoot options texts) := by
  induction texts with
  | nil => exact pure ()
  | cons text texts ih => exact (issueAtRoot shell text options).bind fun _ => ih

theorem updateWork (shell : Shell) (o : VersionUpdate) :
    Repeats before₁ before₂ (updateWork shell o) := by
  refine (refuseIf _ _).bind fun _ => (currentVersion _).bind fun current => ?_
  refine (refuseIf _ _).bind fun _ => (replaceVersion _ _).bind fun _ => ?_
  refine (issueAtRoot shell _ _).bind fun _ => (refuseIf _ _).bind fun _ => ?_
  refine (issueAllAtRoot shell _ _).bind fun _ => ?_
  split
  · exact issueAllAtRoot shell _ _
  · exact pure ()

end Repeats

end Job

/-! ### The task -/

namespace Invocation

open Job

variable {supply : Supplier} {shell : Shell} {name : String} {args : Arguments} {b b' : Bench}
  {out : Outcome} {s s' : Session}

/-- A project of a version, in which only the version file is known. -/
def projectAt (version : String) (issued : List Command) : Bench :=
  ⟨⟨[(VersionFile.path, "__version__ = \"" ++ version ++ "\"\n")]⟩, issued⟩

/-- A shell that lists some modified files. -/
def listingShell (modified : String) : Shell := .scripted "/project" [] [(listing, modified)]

/-- Only the version file is modified. -/
def tidy : Shell := listingShell "src/gql_directives/version.py\n"

end Invocation

end DirectiveSchema.Release

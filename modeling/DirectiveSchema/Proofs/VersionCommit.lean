import DirectiveSchema.Proofs.VersionUpdate

/-!
Commands of an update. They are planned: the listing of the modified files, the three that commit
and tag the new version, and the push if one is asked for. An update that completes has rewritten
the version file and issued all of them; one that ends before has issued the first few.
-/
namespace DirectiveSchema.Release

/-- The bench that work leaves. -/
def Work.after {α : Type} (x : Work α) (b : Bench) : Bench :=
  match x b with
  | .ok _ b' => b'
  | .error _ b' => b'

/-- What an action appends to the commands that were issued: all of a plan if it completes, and the
first few of it if it ends before. The files stay. -/
structure Work.Issues {α : Type} (x : Work α) (plan : List Command) : Prop where
  completed {b b' : Bench} {a : α} : x b = .ok a b' → b' = { b with issued := b.issued ++ plan }
  failed {b b' : Bench} {e : Failure} : x b = .error e b' →
    ∃ first, first <+: plan ∧ b' = { b with issued := b.issued ++ first }

namespace Work.Issues

variable {α β : Type} {x : Work α} {f : α → Work β} {plan rest : List Command}

theorem pure (a : α) : Issues (pure a : Work α) [] where
  completed run := by cases run; simp
  failed run := by cases run

theorem refuseIf (condition : Bool) (e : Failure) : Issues (Work.refuseIf condition e) [] := by
  cases condition with
  | false => exact pure ()
  | true =>
    exact { completed := fun run => by cases run
            failed := fun run => by cases run; exact ⟨[], List.nil_prefix, by simp⟩ }

theorem bind (first : Issues x plan) (next : ∀ a, Issues (f a) rest) :
    Issues (x >>= f) (plan ++ rest) where
  completed {b b' c} run := by
    cases ran : x b with
    | ok a b₁ =>
      rw [Work.bind_of_ok ran] at run
      rw [(next a).completed run, first.completed ran, List.append_assoc]
    | error e b₁ =>
      rw [Work.bind_of_error ran] at run
      cases run
  failed {b b' e} run := by
    cases ran : x b with
    | ok a b₁ =>
      rw [Work.bind_of_ok ran] at run
      obtain ⟨done, part, rfl⟩ := (next a).failed run
      refine ⟨plan ++ done, List.prefix_append_right_inj plan |>.2 part, ?_⟩
      rw [first.completed ran, List.append_assoc]
    | error e₁ b₁ =>
      rw [Work.bind_of_error ran] at run
      cases run
      obtain ⟨done, part, rfl⟩ := first.failed ran
      exact ⟨done, part.trans (List.prefix_append plan rest), rfl⟩

theorem issueAtRoot (shell : Shell) (text : String) (options : List CommandOption) :
    Issues (shell.issueAtRoot text options) [⟨shell.rooted text, options⟩] where
  completed run := (Shell.answered_of_issueAtRoot run).2.2
  failed {b b' e} run := by
    by_cases fails : shell.fails (shell.rooted text) = true
    · simp only [Shell.issueAtRoot, Shell.issue, fails, if_true] at run
      cases run
      exact ⟨_, List.prefix_refl _, rfl⟩
    · rw [Shell.issueAtRoot_of_answered (by simpa using fails)] at run
      cases run

theorem issueAllAtRoot (shell : Shell) (options : List CommandOption) (texts : List String) :
    Issues (shell.issueAllAtRoot options texts)
      (texts.map fun text => ⟨shell.rooted text, options⟩) := by
  induction texts with
  | nil => exact pure ()
  | cons text texts ih => exact (issueAtRoot shell text options).bind fun _ => ih

end Work.Issues

theorem Shell.issueAllAtRoot_of_answered {shell : Shell} {texts : List String}
    (h : ∀ text ∈ texts, shell.fails (shell.rooted text) = false) (options : List CommandOption)
    (b : Bench) : shell.issueAllAtRoot options texts b = .ok ()
      { b with issued := b.issued ++ texts.map fun text => ⟨shell.rooted text, options⟩ } := by
  induction texts generalizing b with
  | nil =>
    rw [List.map_nil, List.append_nil]
    rfl
  | cons text texts ih =>
    rw [issueAllAtRoot, Work.bind_of_ok (issueAtRoot_of_answered (h text List.mem_cons_self) _ _),
      ih fun t ht => h t (List.mem_cons_of_mem text ht)]
    simp

namespace Job

variable {shell : Shell} {o : VersionUpdate} {b b' : Bench} {e : Failure}

theorem declares_of_text? {w : Workspace} {text current : String}
    (file : w.text? VersionFile.path = some text) (unified : '\r' ∉ text.toList)
    (declared : VersionFile.declared? text.toList = some (.text current)) :
    Declares w text.toList current where
  read := by rw [Workspace.read_of_text? file, Text.unifyLineEnds_eq_self unified]
  declared := declared

theorem Declares.unique {w : Workspace} {text text' : List Char} {current current' : String}
    (h : Declares w text current) (h' : Declares w text' current') :
    text = text' ∧ current = current' := by
  obtain rfl := Except.ok.inj (h.read.symm.trans h'.read)
  exact ⟨rfl, Literal.text.inj (Option.some.inj (h.declared.symm.trans h'.declared))⟩

/-- The commands that commit and tag a version. -/
def committing (version : String) : List String :=
  ["git add " ++ VersionFile.path, "git commit -m v" ++ version, "git tag v" ++ version]

/-- The commands that publish the commit. -/
def pushing (push : Bool) : List String := if push then ["git push && git push --tags"] else []

/-- The commands of an update in their order. -/
def planned (shell : Shell) (o : VersionUpdate) : List Command :=
  ⟨shell.rooted listing, [.hidden]⟩ ::
    (committing o.version ++ pushing o.push).map fun text => ⟨shell.rooted text, []⟩

theorem issues_commitVersion (shell : Shell) (o : VersionUpdate) :
    (commitVersion shell o).Issues (planned shell o) := by
  have push : Work.Issues (if o.push then shell.issueAllAtRoot [] ["git push && git push --tags"]
      else pure ()) ((pushing o.push).map fun text => ⟨shell.rooted text, []⟩) := by
    cases o.push with
    | false => exact .pure ()
    | true => exact .issueAllAtRoot shell [] _
  have committed : (planned shell o) = [⟨shell.rooted listing, [.hidden]⟩] ++
      ([] ++ ((committing o.version).map (fun text => ⟨shell.rooted text, []⟩) ++
        (pushing o.push).map fun text => ⟨shell.rooted text, []⟩)) := by
    simp [planned]
  rw [committed]
  exact (Work.Issues.issueAtRoot shell _ _).bind fun _ => (Work.Issues.refuseIf _ _).bind fun _ =>
    (Work.Issues.issueAllAtRoot shell [] _).bind fun _ => push

/-- What has to hold for an update to write a new version into the version file. -/
structure Increments (o : VersionUpdate) (w : Workspace) (text : List Char) (current : String) :
    Prop where
  accepted : Version.isAccepted o.version = true
  declares : Declares w text current
  later : o.force = true ∨ current < o.version

theorem updateWork_of_increments {text : List Char} {current : String}
    (h : Increments o b.workspace text current) :
    updateWork shell o b = commitVersion shell o
      { b with workspace := rewritten b.workspace text current o.version } := by
  have order : (!o.force && !decide (current < o.version)) = false := by
    rcases h.later with force | later
    · simp [force]
    · simp [later]
  unfold updateWork
  rw [h.accepted, Bool.not_true, Work.bind_of_ok (Work.refuseIf_of_false rfl _ _),
    Work.bind_of_ok (currentVersion_of_declares h.declares _),
    Work.bind_of_ok (Work.refuseIf_of_false order _ _),
    Work.bind_of_ok (replaceVersion_of_declares h.declares _)]

/-- An update gets as far as to write the new version, or it ends where it began. -/
theorem updateWork_cases (shell : Shell) (o : VersionUpdate) (b : Bench) :
    (∃ text current, Increments o b.workspace text current) ∨
      ∃ e, updateWork shell o b = .error e b := by
  unfold updateWork
  cases good : Version.isAccepted o.version with
  | false => exact .inr ⟨_, by rw [Bool.not_false, Work.bind_of_error (Work.refuseIf_of_true rfl _ _)]⟩
  | true =>
    rw [Bool.not_true, Work.bind_of_ok (Work.refuseIf_of_false rfl _ _)]
    rcases currentVersion_cases o.force b with ⟨text, current, declares⟩ | ⟨e, -, failed⟩
    · cases late : !o.force && !decide (current < o.version) with
      | true =>
        refine .inr ⟨.notLater current, ?_⟩
        rw [Work.bind_of_ok (currentVersion_of_declares declares _),
          Work.bind_of_error (Work.refuseIf_of_true late _ _)]
      | false =>
        refine .inl ⟨text, current, good, declares, ?_⟩
        cases force : o.force with
        | true => exact .inl rfl
        | false => exact .inr (by simpa [force] using late)
    · exact .inr ⟨e, Work.bind_of_error failed⟩

/-- An update completes if all commands are answered, and the version file is all that is modified. -/
theorem updateWork_of_answered {text : List Char} {current : String}
    (h : Increments o b.workspace text current)
    (answered : ∀ command ∈ planned shell o, shell.fails command.text = false)
    (alone : o.force = true ∨ Text.strip (shell.output (shell.rooted listing)) = VersionFile.path) :
    updateWork shell o b =
      .ok () ⟨rewritten b.workspace text current o.version, b.issued ++ planned shell o⟩ := by
  have tidy : (!o.force && Text.strip (shell.output (shell.rooted listing)) != VersionFile.path) =
      false := by
    rcases alone with force | same
    · simp [force]
    · simp [same]
  have commands {texts : List String} (among : texts ⊆ committing o.version ++ pushing o.push)
      (b : Bench) : shell.issueAllAtRoot [] texts b = .ok ()
        { b with issued := b.issued ++ texts.map fun text => ⟨shell.rooted text, []⟩ } := by
    refine Shell.issueAllAtRoot_of_answered (fun text given => ?_) [] b
    exact answered ⟨shell.rooted text, []⟩
      (List.mem_cons_of_mem _ (List.mem_map_of_mem (among given)))
  rw [updateWork_of_increments h, commitVersion, Work.bind_of_ok
    (Shell.issueAtRoot_of_answered (answered _ List.mem_cons_self) _ _),
    Work.bind_of_ok (Work.refuseIf_of_false tidy _ _)]
  change (shell.issueAllAtRoot [] (committing o.version) >>= _) _ = _
  rw [Work.bind_of_ok (commands (by simp) _)]
  cases push : o.push with
  | true =>
    rw [if_pos rfl, commands (by simp [pushing, push])]
    simp [planned, pushing, push]
  | false =>
    simp [planned, pushing, push]
    rfl

/-- An update that completes has written the new version and issued all commands of the plan. -/
theorem completed_updateWork {u : Unit} (h : updateWork shell o b = .ok u b') :
    ∃ text current, Increments o b.workspace text current ∧
      b' = ⟨rewritten b.workspace text current o.version, b.issued ++ planned shell o⟩ := by
  rcases updateWork_cases shell o b with ⟨text, current, increments⟩ | ⟨e, failed⟩
  · rw [updateWork_of_increments increments] at h
    exact ⟨text, current, increments, (issues_commitVersion shell o).completed h⟩
  · rw [failed] at h
    cases h

/-- However an update ends, what it issued is at the front of the plan. -/
theorem issued_of_updateWork (shell : Shell) (o : VersionUpdate) (b : Bench) :
    ∃ first, first <+: planned shell o ∧
      ((updateWork shell o).after b).issued = b.issued ++ first := by
  unfold Work.after
  rcases updateWork_cases shell o b with ⟨text, current, increments⟩ | ⟨e, failed⟩
  · rw [updateWork_of_increments increments]
    cases run : commitVersion shell o
        { b with workspace := rewritten b.workspace text current o.version } with
    | ok u b' =>
      exact ⟨planned shell o, List.prefix_refl _, by rw [(issues_commitVersion shell o).completed run]⟩
    | error e b' =>
      obtain ⟨first, part, left⟩ := (issues_commitVersion shell o).failed run
      exact ⟨first, part, by rw [left]⟩
  · rw [failed]
    exact ⟨[], List.nil_prefix, by simp⟩

end Job

end DirectiveSchema.Release

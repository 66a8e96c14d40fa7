import DirectiveSchema.BuiltIn
import DirectiveSchema.Proofs.Scan

/-!
The directives that every schema has. Whatever is observed, their conditions stay required truth
values, and they can be written.
-/
namespace DirectiveSchema.Validation

open BuiltIn

variable {s s' : Session} {i : Nat}

/-- The conditions of the built-in directives, as they are in any session that is observed. -/
structure Standing (s : Session) : Prop where
  name {i : Nat} : i < 2 → (s.argument ⟨i⟩).name = some (.text "if")
  source {i : Nat} : i < 2 → (s.argument ⟨i⟩).Over (.wrapper .nonNull ⟨i⟩)
  wrapper {i : Nat} : i < 2 → (s.wrapper ⟨i⟩).Over (.scalar booleanRef)
  scalar : (s.scalar booleanRef).name = some (.text "Boolean")
  reach : 3 ≤ s.reach

theorem standing_session : Standing session := by
  have two {i : Nat} (h : i < 2) : i = 0 ∨ i = 1 := by omega
  constructor
  · intro i hi; rcases two hi with rfl | rfl <;> rfl
  · intro i hi
    rcases two hi with rfl | rfl <;> exact ⟨rfl, rfl, fun h => nomatch h⟩
  · intro i hi
    rcases two hi with rfl | rfl <;> exact ⟨rfl, rfl, fun h => nomatch h⟩
  · rfl
  · decide

theorem standing_of_extends (extension : session.Extends s') : Standing s' := by
  have standing := standing_session
  have live {i : Nat} (h : i < 2) : i < session.arguments.size ∧ i < session.wrappers.size :=
    ⟨h, h⟩
  constructor
  · intro i hi
    rw [(extension.argument (live hi).1).name, standing.name hi]
  · exact fun hi => (standing.source hi).settles (extension.argument (live hi).1)
  · exact fun hi => (standing.wrapper hi).settles (extension.wrapper (live hi).2)
  · have same : session.scalar booleanRef = s'.scalar booleanRef :=
      extension.scalars.cell (by decide)
    rw [← same, standing.scalar]
  · have tags : 7 ≤ s'.nextTag := extension.nextTag
    unfold Session.reach
    omega

theorem standing_of_leads (later : session.Leads s') : Standing s' :=
  standing_of_extends later.extends

/-- The type of a condition is a required truth value. -/
theorem write_condition (later : session.Leads s') (hi : i < 2) (n : Nat) :
    ∃ s'', Display.write (n + 3) Deferred.supplier .label (.wrapper .nonNull ⟨i⟩) s' =
      .ok "Boolean!" s'' := by
  obtain ⟨s₁, run⟩ := ((standing_of_leads later).wrapper hi).wrapped
    Deferred.supplier .nonNull
  have later₁ : session.Leads s₁ := later.trans ((leads.wrapped [] .nonNull ⟨i⟩).of_ok run)
  have named := (standing_of_leads later₁).scalar
  refine ⟨s₁, ?_⟩
  simp only [Display.write]
  rw [Action.bind_of_ok run]
  have filled : Display.fill (Display.write (n + 2) Deferred.supplier .label)
      (.scalar booleanRef) s₁ = .ok "Boolean" s₁ := by
    simp only [Display.fill, Value.row?, Display.write]
    rw [Action.get_bind, named]
    rfl
  exact Action.bind_of_ok filled

theorem type_condition (later : session.Leads s') (hi : i < 2) :
    ∃ s'', Arguments.type Deferred.supplier ⟨i⟩ s' = .ok (.wrapper .nonNull ⟨i⟩) s'' ∧
      session.Leads s'' := by
  obtain ⟨s₁, run⟩ := ((standing_of_leads later).source hi).type Deferred.supplier
  exact ⟨s₁, run, later.trans ((leads.type [] ⟨i⟩).of_ok run)⟩

theorem unwraps_condition (later : session.Leads s') (hi : i < 2) :
    ∃ s'', (Arguments.type Deferred.supplier ⟨i⟩ >>= Types.unwrap Deferred.supplier) s' =
      .ok (.scalar booleanRef) s'' := by
  obtain ⟨s₁, typed, later₁⟩ := type_condition later hi
  obtain ⟨s₂, run⟩ := ((standing_of_leads later₁).wrapper hi).wrapped
    Deferred.supplier .nonNull
  refine ⟨s₂, ?_⟩
  rw [Action.bind_of_ok typed]
  have enough : ∃ n, s₁.reach = n + 1 :=
    ⟨s₁.reach - 1, by have := (standing_of_leads later₁).reach; omega⟩
  obtain ⟨n, enough⟩ := enough
  simp only [Types.unwrap, Action.bounded_succ, Value.depth, enough, Types.unwrapWithin]
  rw [Action.bind_of_ok run]
  cases n <;> rfl

theorem resolves_condition (hi : i < 2) : Resolves session ⟨i⟩ true := by
  intro s' later
  obtain ⟨s'', run⟩ := unwraps_condition later hi
  exact ⟨.scalar booleanRef, s'', run, rfl⟩

theorem answers_condition (hi : i < 2) :
    Answers session (Display.label Deferred.supplier (.argument ⟨i⟩)) := by
  intro s' later
  have standing := standing_of_leads later
  obtain ⟨n, enough, bounded⟩ := Action.boundedPairs_succ (Value.depth (.argument ⟨i⟩))
    (fun n => Display.write n Deferred.supplier .label (.argument ⟨i⟩)) s'
  obtain ⟨m, rfl⟩ : ∃ m, n = m + 3 := ⟨n - 3, by have := standing.reach; omega⟩
  obtain ⟨s₁, typed, later₁⟩ := type_condition later hi
  obtain ⟨s₂, written⟩ := write_condition later₁ hi m
  have named : Arguments.name ⟨i⟩ s' = .ok (.text "if") s' := by
    rw [Arguments.name_eq, standing.name hi]
    rfl
  have label : Display.write (m + 3) Deferred.supplier .label (.text "if") s₁ = .ok "if" s₁ := rfl
  refine ⟨"Argument(" ++ "if" ++ ": " ++ "Boolean!" ++ "" ++ ")", s₂, bounded.trans ?_⟩
  generalize m + 3 = k at label written
  simp only [Display.write]
  rw [Action.bind_of_ok named, Action.bind_of_ok typed, Action.bind_of_ok label,
    Action.bind_of_ok written]
  rfl

theorem answers_condition_type (hi : i < 2) : Answers session
    (Arguments.type Deferred.supplier ⟨i⟩ >>= Display.label Deferred.supplier) := by
  intro s' later
  obtain ⟨s₁, typed, later₁⟩ := type_condition later hi
  obtain ⟨n, enough, bounded⟩ := Action.boundedPairs_succ (Value.depth (.wrapper .nonNull ⟨i⟩))
    (fun n => Display.write n Deferred.supplier .label (.wrapper .nonNull ⟨i⟩)) s₁
  obtain ⟨m, rfl⟩ : ∃ m, n = m + 2 :=
    ⟨n - 2, by have := (standing_of_leads later₁).reach; omega⟩
  obtain ⟨s₂, written⟩ := write_condition later₁ hi m
  exact ⟨_, s₂, (Action.bind_of_ok typed).trans (bounded.trans written)⟩

end DirectiveSchema.Validation

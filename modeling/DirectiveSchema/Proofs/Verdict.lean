import DirectiveSchema.Proofs.Specified

/-!
The verdict of a validation: a valid collection is accepted, and of any other the first violated
check is reported, unless a text that is asked for before cannot be made.
-/
namespace DirectiveSchema.Validation

open BuiltIn

variable {s : Session} {vs : List Value}

/-- The entries of a list or a tuple. -/
def entries? (s : Session) : Value → Option (List Value)
  | .list r => some (s.list r)
  | v => v.row?

theorem elements_of_entries {collection : Value} (h : entries? s collection = some vs) :
    Container.elements collection s = .ok vs s := by
  cases collection with
  | list | tuple | config =>
    cases h
    rfl
  | _ => cases h

/-- A validation makes the checks of its collection. -/
theorem validate_scanned {collection : Value} (entries : entries? s collection = some vs)
    (live : Live s vs) (resolvable : Resolvable s vs) :
    Scanned s vs (checks s vs) (validate Deferred.supplier collection s) := by
  simp only [validate]
  rw [Action.bind_of_ok (elements_of_entries entries)]
  exact .directives (List.nil_append vs).symm (by simp) live resolvable .refl

/-- The texts that a validation asks for can be made: those of locations, of arguments, of their
names and types, and of entries that are no directives. -/
structure Legible (s : Session) (vs : List Value) : Prop where
  entry {v : Value} :
    v ∈ vs → v.isDirective = false → Answers s (Display.literal Deferred.supplier v)
  location {r : Ref .directive} {l : Value} : .directive r ∈ vs →
    l ∈ (s.directive r).locations.items → Answers s (Display.label Deferred.supplier l)
  argument {v a : Value} :
    v ∈ vs → a ∈ argsOf s v → Answers s (Display.label Deferred.supplier a)
  name {v name : Value} {q : Ref .argument} : v ∈ vs → .argument q ∈ argsOf s v →
    (s.argument q).name = some name → Answers s (Display.label Deferred.supplier name)
  type {v : Value} {q : Ref .argument} : v ∈ vs → .argument q ∈ argsOf s v →
    Answers s (Arguments.type Deferred.supplier q >>= Display.label Deferred.supplier)

/-- A text, or a location, is its own label. -/
theorem label_of_text {supply : Supplier} {v : Value} {n : String} (h : v.text? = some n)
    (s : Session) : Display.label supply v s = .ok n s := by
  obtain ⟨k, -, bounded⟩ := Action.boundedPairs_succ v.depth
    (fun k => Display.write k supply .label v) s
  refine bounded.trans ?_
  cases v with
  | text | location =>
    cases h
    rfl
  | _ => cases h

/-- A directive can be written when its locations can. -/
theorem answers_literal {r : Ref .directive} (live : r.index < s.directives.size)
    (locations : ∀ l ∈ (s.directive r).locations.items,
      Answers s (Display.label Deferred.supplier l)) :
    Answers s (Display.literal Deferred.supplier (.directive r)) := by
  intro s' later
  have named := (s.directive r).named
  obtain ⟨n, spelt⟩ : ∃ n, (s.directive r).name.text? = some n := by
    cases spelt : (s.directive r).name.text? with
    | some n => exact ⟨n, rfl⟩
    | none => simp [Value.isName, spelt] at named
  simp only [Display.literal, Display.directiveLiteral]
  rw [Action.get_bind, later.extends.directive live, Action.bind_of_ok (label_of_text spelt s')]
  have shown : Answers s ((s.directive r).locations.items.mapM
      (Display.label Deferred.supplier)) := answers_mapM (leads.label []) locations
  obtain ⟨texts, s'', run⟩ := shown s' later
  exact ⟨_, s'', Action.bind_of_ok run⟩

theorem Legible.answers (h : Legible s vs) (live : Live s vs) {c : Check} {text : Action String}
    (asked : text? s vs c = some text) : Answers s text := by
  cases c with
  | entry i =>
    simp only [text?, Option.map_eq_some_iff] at asked
    obtain ⟨v, stands, rfl⟩ := asked
    have among := List.mem_of_getElem? stands
    cases v with
    | directive r => exact answers_literal (live.directive among) fun l hl => h.location among hl
    | _ => exact h.entry among rfl
  | argument i j =>
    simp only [text?, Option.map_eq_some_iff, argumentAt?_eq_some] at asked
    obtain ⟨a, ⟨v, stands, argumentStands⟩, rfl⟩ := asked
    exact h.argument (List.mem_of_getElem? stands) (List.mem_of_getElem? argumentStands)
  | grammar i j =>
    simp only [text?] at asked
    split at asked
    next q position =>
      obtain ⟨v, stands, argumentStands⟩ := argumentAt?_eq_some.1 position
      obtain ⟨name, named, asked⟩ := Option.bind_eq_some_iff.1 asked
      split at asked
      · cases asked
      · cases asked
        exact h.name (List.mem_of_getElem? stands) (List.mem_of_getElem? argumentStands) named
    next => cases asked
  | input i j =>
    simp only [text?] at asked
    split at asked
    next q position =>
      obtain ⟨v, stands, argumentStands⟩ := argumentAt?_eq_some.1 position
      cases asked
      exact h.type (List.mem_of_getElem? stands) (List.mem_of_getElem? argumentStands)
    next => cases asked
  | name | repetition => cases asked

section

variable {collection : Value} {c : Check} {f : Fault} {s' : Session}

/-- What is accepted is valid. -/
theorem valid_of_validate (entries : entries? s collection = some vs) (live : Live s vs)
    (resolvable : Resolvable s vs)
    (accepted : validate Deferred.supplier collection s = .ok () s') : Valid s vs := by
  have scan := validate_scanned entries live resolvable
  rw [accepted] at scan
  exact (valid_iff resolvable).2 fun c hc => (scan.of_ok c hc).kept

/-- What is refused is refused by a check that is reached: it is violated, or its text cannot be
made. -/
theorem reached_of_validate (entries : entries? s collection = some vs) (live : Live s vs)
    (resolvable : Resolvable s vs)
    (refused : validate Deferred.supplier collection s = .error f s') :
    ∃ c, Reached s vs c ∧ (Violated s vs c ∧ Reports s vs c f ∨ Fails s vs c f) := by
  have scan := validate_scanned entries live resolvable
  rw [refused] at scan
  obtain ⟨before, c, rest, split, earlier, verdict⟩ := scan.of_error
  exact ⟨c, ⟨before, rest, split, fun b hb => (earlier b hb).kept⟩, verdict⟩

/-- While the texts that are reached can be made, a collection is accepted when it is valid, and
its first violation is reported when it is not. -/
theorem verdict_of_answers (entries : entries? s collection = some vs) (live : Live s vs)
    (resolvable : Resolvable s vs)
    (answers : ∀ c text, Reached s vs c → text? s vs c = some text → Answers s text) :
    (Valid s vs → ∃ s', validate Deferred.supplier collection s = .ok () s') ∧
      (¬Valid s vs → ∃ c f s', validate Deferred.supplier collection s = .error f s' ∧
        First s vs c ∧ Reports s vs c f) := by
  cases run : validate Deferred.supplier collection s with
  | ok u s' =>
    refine ⟨fun _ => ⟨s', rfl⟩, fun invalid => ?_⟩
    exact absurd (valid_of_validate entries live resolvable run) invalid
  | error f s' =>
    obtain ⟨c, reached, ⟨violated, reports⟩ | ⟨text, g, asked, faults, -⟩⟩ :=
      reached_of_validate entries live resolvable run
    · refine ⟨fun valid => absurd violated (valid.not_violated c), fun _ => ?_⟩
      exact ⟨c, f, s', rfl, ⟨reached, violated⟩, reports⟩
    · exact absurd faults ((answers c text reached asked).not_faults g)

/-- Two checks that are reached: one is before the other, and was not violated, or they are the
same. -/
theorem before_or_eq {c' : Check} {before rest before' rest' : List Check}
    (split : before ++ c :: rest = before' ++ c' :: rest') :
    c ∈ before' ∨ c' ∈ before ∨ c = c' := by
  rcases List.append_eq_append_iff.1 split with ⟨as, rfl, tail⟩ | ⟨as, rfl, tail⟩
  · cases as with
    | nil => exact .inr (.inr (List.cons.inj tail).1)
    | cons b as =>
      cases (List.cons.inj tail).1
      exact .inl (by simp)
  · cases as with
    | nil => exact .inr (.inr (List.cons.inj tail).1.symm)
    | cons b as =>
      cases (List.cons.inj tail).1
      exact .inr (.inl (by simp))

/-- A reported text was made. -/
theorem Reports.shown (h : Reports s vs c f) {text : Action String}
    (asked : text? s vs c = some text) : ∃ shown, Yields s text shown := by
  have made {shown : String} : Shown s vs c shown → ∃ shown, Yields s text shown := by
    rintro ⟨text', asked', yields⟩
    rw [asked] at asked'
    cases asked'
    exact ⟨shown, yields⟩
  cases h with
  | entry shown => exact made shown
  | argument _ _ shown => exact made shown
  | grammar _ _ shown => exact made shown
  | input _ _ _ _ shown => exact made shown
  | name | repetition => cases asked

/-- When a text that is reached can never be made, a text that could not be made is what is
reported. -/
theorem fails_of_refuses (entries : entries? s collection = some vs) (live : Live s vs)
    (resolvable : Resolvable s vs) (reached : Reached s vs c) {text : Action String}
    (asked : text? s vs c = some text) (refuses : Refuses s text) :
    ∃ c f s', validate Deferred.supplier collection s = .error f s' ∧ Reached s vs c ∧
      Fails s vs c f := by
  have unmade : ¬∃ shown, Yields s text shown := fun ⟨shown, yields⟩ =>
    refuses.not_yields shown yields
  obtain ⟨before, rest, split, kept⟩ := reached
  have scan := validate_scanned entries live resolvable
  cases run : validate Deferred.supplier collection s with
  | ok u s' =>
    rw [run] at scan
    have passed := scan.of_ok c (by simp [split])
    exact absurd (passed.shown asked) unmade
  | error f s' =>
    rw [run] at scan
    obtain ⟨before', c', rest', split', passed, verdict⟩ := scan.of_error
    have reached' : Reached s vs c' := ⟨before', rest', split', fun b hb => (passed b hb).kept⟩
    rcases verdict with ⟨violated, reports⟩ | fails
    · rcases before_or_eq (split.symm.trans split') with earlier | earlier | rfl
      · exact absurd ((passed c earlier).shown asked) unmade
      · exact absurd violated (kept c' earlier)
      · exact absurd (reports.shown asked) unmade
    · exact ⟨c', f, s', rfl, reached', fails⟩

end

/-- A collection whose texts can be made is accepted if and only if it is valid. Of any other the
first violated check is reported, by a fault of the schema, which has a cause when the check is one
of a grammar. -/
theorem validate_decides_validity {collection : Value} (entries : entries? s collection = some vs)
    (live : Live s vs) (resolvable : Resolvable s vs) (legible : Legible s vs) :
    ((∃ s', validate Deferred.supplier collection s = .ok () s') ↔ Valid s vs) ∧
      (¬Valid s vs → ∃ c f s', validate Deferred.supplier collection s = .error f s' ∧
        First s vs c ∧ Reports s vs c f ∧ f.kind = .schema ∧
        f.cause?.map Fault.kind = if c.isGrammar then some .invalidName else none) := by
  obtain ⟨accepts, refuses⟩ := verdict_of_answers entries live resolvable
    fun c text _ asked => legible.answers live asked
  refine ⟨⟨fun ⟨s', run⟩ => valid_of_validate entries live resolvable run, accepts⟩, ?_⟩
  intro invalid
  obtain ⟨c, f, s', run, first, reports⟩ := refuses invalid
  exact ⟨c, f, s', run, first, reports, reports.kind_eq, reports.cause_eq⟩

/-- The directives that every schema has are accepted. -/
theorem specified_directives_validate : ∃ s', validate Deferred.supplier
    (.tuple 5 [.directive includeRef, .directive skipRef]) session = .ok () s' := by
  have entry {v : Value} (h : v ∈ [.directive includeRef, .directive skipRef]) :
      v = .directive ⟨0⟩ ∨ v = .directive ⟨1⟩ := by
    simpa [includeRef, skipRef] using h
  have argument {v a : Value} (h : v ∈ [.directive includeRef, .directive skipRef])
      (ha : a ∈ argsOf session v) : ∃ i, i < 2 ∧ a = .argument ⟨i⟩ := by
    rcases entry h with rfl | rfl
    · exact ⟨0, by decide, List.mem_singleton.1 ha⟩
    · exact ⟨1, by decide, List.mem_singleton.1 ha⟩
  have live : Live session [.directive includeRef, .directive skipRef] := by
    constructor
    · intro r h
      rcases entry h with h | h <;> cases h <;> decide
    · intro v q h hq
      obtain ⟨i, hi, same⟩ := argument h hq
      cases same
      exact hi
  have resolvable : Resolvable session [.directive includeRef, .directive skipRef] := by
    intro v h q hq
    obtain ⟨i, hi, same⟩ := argument h hq
    cases same
    exact ⟨true, resolves_condition hi⟩
  have legible : Legible session [.directive includeRef, .directive skipRef] := by
    constructor
    · intro v h kind
      rcases entry h with rfl | rfl <;> cases kind
    · intro r l h hl s' later
      have known : ∀ l ∈ executableLocations, l.text?.isSome = true := by decide
      have among : l ∈ executableLocations := by
        rcases entry h with h | h <;> cases h <;> exact hl
      obtain ⟨n, located⟩ := Option.isSome_iff_exists.1 (known l among)
      exact ⟨n, s', label_of_text located s'⟩
    · intro v a h ha
      obtain ⟨i, hi, rfl⟩ := argument h ha
      exact answers_condition hi
    · intro v name q h hq named s' later
      obtain ⟨i, hi, same⟩ := argument h hq
      cases same
      rw [standing_session.name hi] at named
      cases named
      exact ⟨"if", s', label_of_text rfl s'⟩
    · intro v q h hq
      obtain ⟨i, hi, same⟩ := argument h hq
      cases same
      exact answers_condition_type hi
  refine (validate_decides_validity rfl live resolvable legible).1.2 ⟨?_, ?_, ?_⟩
  · intro v h
    rcases entry h with rfl | rfl <;> rfl
  · decide
  · intro v h
    refine ⟨?_, ?_, ?_, ?_⟩
    · intro a ha
      obtain ⟨i, hi, rfl⟩ := argument h ha
      rfl
    · intro q hq
      obtain ⟨i, hi, same⟩ := argument h hq
      cases same
      exact ⟨_, standing_session.name hi, by decide⟩
    · rcases entry h with rfl | rfl <;> decide
    · intro q hq
      obtain ⟨i, hi, same⟩ := argument h hq
      cases same
      exact resolves_condition hi

/-- Without regard to texts, what is accepted is valid, and what is refused is refused by a check
that is reached: by its own report, or by the fault of its text. The text of a check that is reached
decides which: a validation ends by the first violation when all of them can be made, and by a fault
of a text when one of them never can. -/
theorem validate_ends_by_texts {collection : Value} (entries : entries? s collection = some vs)
    (live : Live s vs) (resolvable : Resolvable s vs) :
    (∀ s', validate Deferred.supplier collection s = .ok () s' → Valid s vs) ∧
      (∀ f s', validate Deferred.supplier collection s = .error f s' →
        ∃ c, First s vs c ∧ Reports s vs c f ∨ Reached s vs c ∧ Fails s vs c f) ∧
      ((∀ c text, Reached s vs c → text? s vs c = some text → Answers s text) →
        (Valid s vs → ∃ s', validate Deferred.supplier collection s = .ok () s') ∧
          (¬Valid s vs → ∃ c f s', validate Deferred.supplier collection s = .error f s' ∧
            First s vs c ∧ Reports s vs c f)) ∧
      ((∃ c text, Reached s vs c ∧ text? s vs c = some text ∧ Refuses s text) →
        ∃ c f s', validate Deferred.supplier collection s = .error f s' ∧ Reached s vs c ∧
          Fails s vs c f) := by
  refine ⟨?_, ?_, verdict_of_answers entries live resolvable, ?_⟩
  · exact fun s' => valid_of_validate entries live resolvable
  · intro f s' run
    obtain ⟨c, reached, ⟨violated, reports⟩ | fails⟩ :=
      reached_of_validate entries live resolvable run
    · exact ⟨c, .inl ⟨⟨reached, violated⟩, reports⟩⟩
    · exact ⟨c, .inr ⟨reached, fails⟩⟩
  · rintro ⟨c, text, reached, asked, refuses⟩
    exact fails_of_refuses entries live resolvable reached asked refuses

/-- A scalar type whose name is a number. It is an input type, and it has no text. -/
def numberedScalar : ScalarType := {
  name := some (.int 5)
  description := some .null
  serialize := .identity
  parse := .identity
  extra := [] }

/-- The session in which a directive has an argument of such a type. -/
def numbered : Session := { session with
  scalars := session.scalars.add numberedScalar
  arguments := session.arguments.add {
    name := some (.text "bar")
    description := some .null
    hasDefault := some (.bool false)
    default := none
    source := .scalar ⟨5⟩
    resolved := none
    extra := [] }
  directives := session.directives.add {
    name := .text "foo"
    named := by decide
    description := .null
    locations := ⟨7, [.text "FIELD"]⟩
    args := ⟨8, [.argument ⟨2⟩]⟩ }
  nextTag := 10 }

theorem numbered_type {s' : Session} (later : numbered.Leads s') :
    ∃ s'', Arguments.type Deferred.supplier ⟨2⟩ s' = .ok (.scalar ⟨5⟩) s'' ∧
      numbered.Leads s'' := by
  have based : (numbered.argument ⟨2⟩).Over (.scalar ⟨5⟩) := ⟨rfl, rfl, fun h => nomatch h⟩
  obtain ⟨s'', run⟩ := (based.settles (later.extends.argument (by decide))).type
    Deferred.supplier
  exact ⟨s'', run, later.trans ((leads.type [] ⟨2⟩).of_ok run)⟩

theorem numbered_resolves : Resolves numbered ⟨2⟩ true := by
  intro s' later
  obtain ⟨s'', typed, -⟩ := numbered_type later
  exact ⟨.scalar ⟨5⟩, s'', Action.bind_of_ok typed, rfl⟩

theorem numbered_refuses :
    Refuses numbered (Display.label Deferred.supplier (.argument ⟨2⟩)) := by
  intro s' later
  obtain ⟨s₁, typed, later₁⟩ := numbered_type later
  have named : Arguments.name ⟨2⟩ s' = .ok (.text "bar") s' := by
    rw [Arguments.name_eq, (later.extends.argument (by decide)).name]
    rfl
  have scalar : (s₁.scalar ⟨5⟩).name = some (.int 5) := by
    have same : numbered.scalar ⟨5⟩ = s₁.scalar ⟨5⟩ := later₁.extends.scalars.cell (by decide)
    rw [← same]
    rfl
  obtain ⟨n, enough, bounded⟩ := Action.boundedPairs_succ (Value.depth (.argument ⟨2⟩))
    (fun n => Display.write n Deferred.supplier .label (.argument ⟨2⟩)) s'
  obtain ⟨m, rfl⟩ : ∃ m, n = m + 1 := by
    have tags : 10 ≤ s'.nextTag := later.extends.nextTag
    unfold Session.reach at enough
    exact ⟨n - 1, by omega⟩
  have label : Display.write (m + 1) Deferred.supplier .label (.text "bar") s₁ = .ok "bar" s₁ := rfl
  have fault : Display.write (m + 1) Deferred.supplier .label (.scalar ⟨5⟩) s₁ =
      .error (.labelNotText "int") s₁ := by
    simp only [Display.write]
    rw [Action.get_bind, scalar]
    rfl
  refine ⟨.labelNotText "int", s₁, bounded.trans ?_⟩
  generalize m + 1 = k at label fault
  simp only [Display.write]
  rw [Action.bind_of_ok named, Action.bind_of_ok typed, Action.bind_of_ok label,
    Action.bind_of_error fault]

set_option maxRecDepth 20000 in
/-- A valid collection may be refused, since its texts are made all the same. -/
theorem numbered_directive_faults : Valid numbered [.directive ⟨2⟩] ∧
    (∃ s', validate Deferred.supplier (.tuple 9 [.directive ⟨2⟩]) numbered =
      .error (.labelNotText "int") s') ∧
    ∃ c f s', validate Deferred.supplier (.tuple 9 [.directive ⟨2⟩]) numbered = .error f s' ∧
      Reached numbered [.directive ⟨2⟩] c ∧ Fails numbered [.directive ⟨2⟩] c f := by
  have only {v a : Value} (h : v ∈ [Value.directive ⟨2⟩]) (ha : a ∈ argsOf numbered v) :
      a = .argument ⟨2⟩ := by
    cases List.mem_singleton.1 h
    exact List.mem_singleton.1 ha
  have resolvable : Resolvable numbered [.directive ⟨2⟩] := by
    intro v h q hq
    cases only h hq
    exact ⟨true, numbered_resolves⟩
  have live : Live numbered [.directive ⟨2⟩] := by
    constructor
    · intro r h
      cases List.mem_singleton.1 h
      decide
    · intro v q h hq
      cases only h hq
      decide
  have valid : Valid numbered [.directive ⟨2⟩] := by
    refine ⟨by simp [Value.isDirective], by decide, fun v h => ⟨?_, ?_, ?_, ?_⟩⟩
    · intro a ha
      rw [only h ha]
      rfl
    · intro q hq
      cases only h hq
      exact ⟨.text "bar", rfl, by decide⟩
    · cases List.mem_singleton.1 h
      decide
    · intro q hq
      cases only h hq
      exact numbered_resolves
  refine ⟨valid, ⟨_, rfl⟩, ?_⟩
  refine (validate_ends_by_texts rfl live resolvable).2.2.2 ⟨.argument 0 0, _, ?_, rfl, ?_⟩
  · exact ⟨[.entry 0, .name 0], _, rfl, fun b _ => valid.not_violated b⟩
  · exact numbered_refuses

end DirectiveSchema.Validation

import DirectiveSchema.Proofs.Warnings

/-!
Locations and validity. Which check is violated first does not depend on locations, and neither does
what it reports: directives are warned of for their locations, but never refused.
-/
namespace DirectiveSchema.Validation

variable {s s' : Session} {vs us : List Value} {v : Value} {r : Ref .directive} {c c' : Check}
  {i : Nat}

/-! ### Other locations -/

/-- One entry for another: the same datum, or a directive with the same name and arguments, whatever
its locations are. -/
def Relocates (s : Session) (v v' : Value) : Prop :=
  v = v' ∨ ∃ r r', v = .directive r ∧ v' = .directive r' ∧
    (s.directive r).name = (s.directive r').name ∧
      (s.directive r).args.items = (s.directive r').args.items

namespace Relocates

variable {v' : Value} {vs' : List Value}

theorem symm (h : Relocates s v v') : Relocates s v' v := by
  rcases h with rfl | ⟨r, r', rfl, rfl, name, args⟩
  · exact .inl rfl
  · exact .inr ⟨r', r, rfl, rfl, name.symm, args.symm⟩

theorem isDirective_eq (h : Relocates s v v') : v.isDirective = v'.isDirective := by
  rcases h with rfl | ⟨r, r', rfl, rfl, -, -⟩ <;> rfl

theorem directiveName?_eq (h : Relocates s v v') : directiveName? s v = directiveName? s v' := by
  rcases h with rfl | ⟨r, r', rfl, rfl, name, -⟩
  · rfl
  · simp only [directiveName?, name]

theorem argsOf_eq (h : Relocates s v v') : argsOf s v = argsOf s v' := by
  rcases h with rfl | ⟨r, r', rfl, rfl, -, args⟩
  · rfl
  · exact args

/-- An entry that is no directive is only replaced by itself. -/
theorem eq_of_other (h : Relocates s v v') (other : v.isDirective = false) : v = v' := by
  rcases h with rfl | ⟨r, r', rfl, -, -, -⟩
  · rfl
  · cases other

section

variable (h : List.Forall₂ (Relocates s) vs vs')

include h

theorem getElem? (stands : vs[i]? = some v) : ∃ v', vs'[i]? = some v' ∧ Relocates s v v' := by
  obtain ⟨inside, rfl⟩ := List.getElem?_eq_some_iff.1 stands
  have inside' : i < vs'.length := h.length_eq ▸ inside
  exact ⟨vs'[i], List.getElem?_eq_getElem inside', h.get inside inside'⟩

theorem argumentAt?_eq (i j : Nat) : argumentAt? s vs i j = argumentAt? s vs' i j := by
  have same : vs.map (argsOf s) = vs'.map (argsOf s) := by
    refine List.forall₂_eq_eq_eq ▸ ?_
    exact List.forall₂_map_left_iff.2 (List.forall₂_map_right_iff.2 (h.imp fun _ _ => argsOf_eq))
  have looked (us : List Value) : argumentAt? s us i j =
      ((us.map (argsOf s))[i]?).bind fun as => as[j]? := by
    rw [argumentAt?, List.getElem?_map]
    cases us[i]? <;> rfl
  rw [looked, looked, same]

theorem names_eq : vs.filterMap (directiveName? s) = vs'.filterMap (directiveName? s) := by
  induction h with
  | nil => rfl
  | cons first _ ih => simp only [List.filterMap_cons, first.directiveName?_eq, ih]

theorem checksFrom_eq (k : Nat) : checksFrom s k vs = checksFrom s k vs' := by
  induction h generalizing k with
  | nil => rfl
  | cons first _ ih => rw [checksFrom, checksFrom, first.argsOf_eq, ih]

/-- What is violated does not depend on locations. -/
theorem violated (violated : Violated s vs c) : Violated s vs' c := by
  cases c with
  | entry i =>
    obtain ⟨v, stands, other⟩ := violated
    obtain ⟨v', stands', replaces⟩ := getElem? h stands
    exact ⟨v', stands', replaces.isDirective_eq ▸ other⟩
  | name i =>
    obtain ⟨v, name, stands, named, earlier⟩ := violated
    obtain ⟨v', stands', replaces⟩ := getElem? h stands
    refine ⟨v', name, stands', replaces.directiveName?_eq ▸ named, ?_⟩
    rwa [← names_eq (List.forall₂_take i h)]
  | repetition i j =>
    obtain ⟨v, a, name, stands, rest⟩ := violated
    obtain ⟨v', stands', replaces⟩ := getElem? h stands
    exact ⟨v', a, name, stands', replaces.argsOf_eq ▸ rest⟩
  | argument i j | grammar i j | input i j =>
    simp only [Violated, ← argumentAt?_eq h] at violated ⊢
    exact violated

theorem first (first : First s vs c) : First s vs' c := by
  obtain ⟨⟨before, rest, split, kept⟩, violated⟩ := first
  refine ⟨⟨before, rest, (checksFrom_eq h 0).symm.trans split, fun b hb violated' => ?_⟩,
    Relocates.violated h violated⟩
  exact kept b hb (Relocates.violated (h.flip.imp fun _ _ => symm) violated')

/-- A violated check asks for the same text, whatever the locations are. -/
theorem text?_eq (violated : Violated s vs c) : text? s vs c = text? s vs' c := by
  cases c with
  | entry i =>
    obtain ⟨v, stands, other⟩ := violated
    obtain ⟨v', stands', replaces⟩ := getElem? h stands
    cases replaces.eq_of_other other
    simp only [text?, stands, stands']
  | name | repetition => rfl
  | argument i j | grammar i j | input i j => simp only [text?, argumentAt?_eq h]

theorem reports {f : Fault} (violated : Violated s vs c) (reports : Reports s vs c f) :
    Reports s vs' c f := by
  have shown {text : String} (made : Shown s vs c text) : Shown s vs' c text := by
    obtain ⟨act, asked, yields⟩ := made
    exact ⟨act, (text?_eq h violated).symm.trans asked, yields⟩
  have directive {i : Nat} {v : Value} {name : String} (stands : vs[i]? = some v)
      (named : directiveName? s v = some name) :
      ∃ v', vs'[i]? = some v' ∧ directiveName? s v' = some name := by
    obtain ⟨v', stands', replaces⟩ := getElem? h stands
    exact ⟨v', stands', replaces.directiveName?_eq ▸ named⟩
  cases reports with
  | entry made => exact .entry (shown made)
  | name stands named =>
    obtain ⟨v', stands', named'⟩ := directive stands named
    exact .name stands' named'
  | argument stands named made =>
    obtain ⟨v', stands', named'⟩ := directive stands named
    exact .argument stands' named' (shown made)
  | grammar position named made =>
    exact .grammar (argumentAt?_eq h _ _ ▸ position) named (shown made)
  | repetition stands named position argumentNamed =>
    obtain ⟨v', stands', named'⟩ := directive stands named
    exact .repetition stands' named' (argumentAt?_eq h _ _ ▸ position) argumentNamed
  | input stands named position argumentNamed made =>
    obtain ⟨v', stands', named'⟩ := directive stands named
    exact .input stands' named' (argumentAt?_eq h _ _ ▸ position) argumentNamed (shown made)

end

end Relocates

/-- A text that is the same whatever was observed before. -/
def Worded (s : Session) (act : Action String) : Prop :=
  ∃ shown, ∀ s', s.Leads s' → ∃ s'', act s' = .ok shown s''

theorem Worded.unique {act : Action String} {a b : String} (h : Worded s act)
    (first : Yields s act a) (second : Yields s act b) : a = b := by
  obtain ⟨shown, always⟩ := h
  obtain ⟨u, u', later, run⟩ := first
  obtain ⟨t, t', later', run'⟩ := second
  obtain ⟨_, first⟩ := always u later
  obtain ⟨_, second⟩ := always t later'
  cases run.symm.trans first
  cases run'.symm.trans second
  rfl

/-- A check makes one report when its text is settled. -/
theorem Reports.unique {f g : Fault} (h : Reports s vs c f) (h' : Reports s vs c g)
    (settled : ∀ text, text? s vs c = some text → Worded s text) : f = g := by
  have same {a b : String} (first : Shown s vs c a) (second : Shown s vs c b) : a = b := by
    obtain ⟨act, asked, yields⟩ := first
    obtain ⟨act', asked', yields'⟩ := second
    cases asked.symm.trans asked'
    exact (settled act asked).unique yields yields'
  cases h with
  | entry made =>
    cases h' with
    | entry made' => rw [same made made']
  | name stands named =>
    cases h' with
    | name stands' named' =>
      cases stands.symm.trans stands'
      cases named.symm.trans named'
      rfl
  | argument stands named made =>
    cases h' with
    | argument stands' named' made' =>
      cases stands.symm.trans stands'
      cases named.symm.trans named'
      rw [same made made']
  | grammar position named made =>
    cases h' with
    | grammar position' named' made' =>
      cases position.symm.trans position'
      cases named.symm.trans named'
      rw [same made made']
  | repetition stands named position argumentNamed =>
    cases h' with
    | repetition stands' named' position' argumentNamed' =>
      cases stands.symm.trans stands'
      cases named.symm.trans named'
      cases position.symm.trans position'
      cases argumentNamed.symm.trans argumentNamed'
      rfl
  | input stands named position argumentNamed made =>
    cases h' with
    | input stands' named' position' argumentNamed' made' =>
      cases stands.symm.trans stands'
      cases named.symm.trans named'
      cases position.symm.trans position'
      cases argumentNamed.symm.trans argumentNamed'
      rw [same made made']

/-- How a validation ends: the collection is accepted, or refused by a fault. -/
def outcome (s : Session) (collection : Value) : Except Fault Unit :=
  match validate Deferred.supplier collection s with
  | .ok _ _ => .ok ()
  | .error f _ => .error f

theorem First.unique (h : First s vs c) (h' : First s vs c') : c = c' := by
  obtain ⟨before, rest, split, kept⟩ := h.1
  obtain ⟨before', rest', split', kept'⟩ := h'.1
  rcases before_or_eq (split.symm.trans split') with earlier | earlier | same
  · exact absurd h.2 (kept' c earlier)
  · exact absurd h'.2 (kept c' earlier)
  · exact same

theorem Relocates.resolvable {vs' : List Value} (h : List.Forall₂ (Relocates s) vs vs')
    (resolvable : Resolvable s vs) : Resolvable s vs' := by
  intro v' hv' q hq
  obtain ⟨i, stands⟩ := List.mem_iff_getElem?.1 hv'
  obtain ⟨v, stands', replaces⟩ := Relocates.getElem? (h.flip.imp fun _ _ => Relocates.symm) stands
  exact resolvable v (List.mem_of_getElem? stands') q (replaces.argsOf_eq ▸ hq)

theorem outcome_of_ok {collection : Value}
    (h : validate Deferred.supplier collection s = .ok () s') : outcome s collection = .ok () := by
  rw [outcome, h]

theorem outcome_of_error {collection : Value} {f : Fault}
    (h : validate Deferred.supplier collection s = .error f s') :
    outcome s collection = .error f := by
  rw [outcome, h]

/-- When all texts can be made, a validation warns, in their order, of the entries that are passed
before the first violated check, and of nothing else: of all entries when none is violated. Other
locations of the directives do not change how it ends. -/
theorem locations_are_only_warned_of :
    (∀ {s : Session} {collection : Value} {vs : List Value}, entries? s collection = some vs →
      Live s vs → Resolvable s vs → Legible s vs → Described s vs →
        (Valid s vs → ∃ s', validate Deferred.supplier collection s = .ok () s' ∧
          Logs s s s' (vs.flatMap (warningsOf s))) ∧
        (¬Valid s vs → ∃ c f s', validate Deferred.supplier collection s = .error f s' ∧
          First s vs c ∧ Reports s vs c f ∧
            Logs s s s' ((vs.take c.passed).flatMap (warningsOf s)))) ∧
    ∀ {s : Session} {collection collection' : Value} {vs vs' : List Value},
      entries? s collection = some vs → entries? s collection' = some vs' →
      List.Forall₂ (Relocates s) vs vs' → Live s vs → Live s vs' → Resolvable s vs →
      Legible s vs → Legible s vs' →
      (∀ c text, First s vs c → text? s vs c = some text → Worded s text) →
        outcome s collection = outcome s collection' := by
  constructor
  · intro s collection vs entries live resolvable legible described
    obtain ⟨accepts, refuses⟩ := verdict_of_answers entries live resolvable
      fun c text _ asked => legible.answers live asked
    have listed {result : EStateM.Result Fault Session Unit}
        (run : validate Deferred.supplier collection s = result) :
        checkDirectives Deferred.supplier [] vs s = result := by
      rw [← run, validate, Action.bind_of_ok (elements_of_entries entries)]
    constructor
    · intro valid
      obtain ⟨s', run⟩ := accepts valid
      have passed := checkDirectives_passed .refl live.directive described (listed run)
      exact ⟨s', run, passed.1⟩
    · intro invalid
      obtain ⟨c, f, s', run, first, reports⟩ := refuses invalid
      exact ⟨c, f, s', run, first, reports,
        logs_of_first live resolvable legible described first (listed run)⟩
  · intro s collection collection' vs vs' entries entries' relocated live live' resolvable legible
      legible' settled
    have resolvable' := Relocates.resolvable relocated resolvable
    obtain ⟨accepts, refuses⟩ := verdict_of_answers entries live resolvable
      fun c text _ asked => legible.answers live asked
    obtain ⟨accepts', refuses'⟩ := verdict_of_answers entries' live' resolvable'
      fun c text _ asked => legible'.answers live' asked
    by_cases valid : Valid s vs
    · have valid' : Valid s vs' := by
        refine (valid_iff resolvable').2 fun c _ violated => valid.not_violated c ?_
        exact Relocates.violated (relocated.flip.imp fun _ _ => Relocates.symm) violated
      obtain ⟨t, run⟩ := accepts valid
      obtain ⟨t', run'⟩ := accepts' valid'
      rw [outcome_of_ok run, outcome_of_ok run']
    · obtain ⟨c, f, t, run, first, reports⟩ := refuses valid
      have invalid' : ¬Valid s vs' := fun valid' =>
        valid'.not_violated c (Relocates.violated relocated first.2)
      obtain ⟨c', g, t', run', first', reports'⟩ := refuses' invalid'
      have back : List.Forall₂ (Relocates s) vs' vs := relocated.flip.imp fun _ _ => Relocates.symm
      obtain rfl := first.unique (Relocates.first back first')
      have same := reports.unique (Relocates.reports back first'.2 reports')
        fun text asked => settled c text first asked
      rw [outcome_of_error run, outcome_of_error run', same]

/-- A directive without locations. -/
def bare : Directive := {
  name := .text "bare"
  named := by decide
  description := .null
  locations := ⟨0, []⟩
  args := ⟨0, []⟩ }

/-- A directive with a location that is unknown, and with an argument that is none. -/
def misplaced : Directive := {
  name := .text "misplaced"
  named := by decide
  description := .null
  locations := ⟨7, [.text "NOWHERE", .location .field]⟩
  args := ⟨8, [.null]⟩ }

/-- The built-in session with these two, and with one that has the name of the first. -/
def laxSession : Session := { BuiltIn.session with
  directives := ((BuiltIn.session.directives.add bare).add misplaced).add
    { bare with locations := ⟨9, [.text "ELSEWHERE"]⟩ } }

/-- The directives of that session that are not built in: they have texts as locations, and as
arguments nothing or a datum that is none. -/
def laxDirectives : List Value := [.directive ⟨2⟩, .directive ⟨3⟩, .directive ⟨4⟩]

theorem lax_of_mem (hv : v ∈ laxDirectives) : ∃ r, v = .directive r ∧
    r.index < laxSession.directives.size ∧
    (∀ l ∈ (laxSession.directive r).locations.items, l.text?.isSome = true) ∧
    ∀ a ∈ argsOf laxSession v, a.isNull = true := by
  simp only [laxDirectives, List.mem_cons, List.not_mem_nil, or_false] at hv
  rcases hv with rfl | rfl | rfl
  · exact ⟨⟨2⟩, rfl, by decide +kernel, by decide +kernel, by decide +kernel⟩
  · exact ⟨⟨3⟩, rfl, by decide +kernel, by decide +kernel, by decide +kernel⟩
  · exact ⟨⟨4⟩, rfl, by decide +kernel, by decide +kernel, by decide +kernel⟩

/-- An argument that is null is no argument, and has a text. -/
theorem worded_null {a : Value} (null : a.isNull = true) :
    a = .null ∧ Worded s (Display.label Deferred.supplier a) := by
  cases a with
  | null => exact ⟨rfl, "None", fun s' _ => ⟨s', rfl⟩⟩
  | _ => cases null

theorem live_lax (sub : us ⊆ laxDirectives) : Live laxSession us where
  directive hr := by
    obtain ⟨r, same, live, -⟩ := lax_of_mem (sub hr)
    cases same
    exact live
  argument hv hq := by
    obtain ⟨r, -, -, -, nulls⟩ := lax_of_mem (sub hv)
    cases nulls _ hq

theorem legible_lax (sub : us ⊆ laxDirectives) : Legible laxSession us where
  entry hv other := by
    obtain ⟨r, rfl, -⟩ := lax_of_mem (sub hv)
    cases other
  location hr hl s' _ := by
    obtain ⟨r, same, -, texts, -⟩ := lax_of_mem (sub hr)
    cases same
    obtain ⟨n, spelt⟩ := Option.isSome_iff_exists.1 (texts _ hl)
    exact ⟨n, s', label_of_text spelt s'⟩
  argument hv ha s' later := by
    obtain ⟨r, -, -, -, nulls⟩ := lax_of_mem (sub hv)
    obtain ⟨-, shown, always⟩ := worded_null (s := laxSession) (nulls _ ha)
    exact ⟨shown, always s' later⟩
  name hv hq := by
    obtain ⟨r, -, -, -, nulls⟩ := lax_of_mem (sub hv)
    cases nulls _ hq
  type hv hq := by
    obtain ⟨r, -, -, -, nulls⟩ := lax_of_mem (sub hv)
    cases nulls _ hq

theorem described_lax (sub : us ⊆ laxDirectives) : Described laxSession us := by
  intro r l hr hl _ s' _
  obtain ⟨r', same, -, texts, -⟩ := lax_of_mem (sub hr)
  cases same
  have text := texts l hl
  cases l with
  | text | location => exact ⟨_, s', rfl⟩
  | _ => cases text

/-- What is refused in that session is an argument, and its text is settled. -/
theorem settled_lax (sub : us ⊆ laxDirectives) {text : Action String}
    (first : First laxSession us c) (asked : text? laxSession us c = some text) :
    Worded laxSession text := by
  have null {i j : Nat} {a : Value} (position : argumentAt? laxSession us i j = some a) :
      a.isNull = true := by
    obtain ⟨v, stands, argumentStands⟩ := argumentAt?_eq_some.1 position
    obtain ⟨r, -, -, -, nulls⟩ := lax_of_mem (sub (List.mem_of_getElem? stands))
    exact nulls a (List.mem_of_getElem? argumentStands)
  have violated := first.2
  cases c with
  | entry i =>
    obtain ⟨v, stands, other⟩ := violated
    obtain ⟨r, rfl, -⟩ := lax_of_mem (sub (List.mem_of_getElem? stands))
    cases other
  | name | repetition => cases asked
  | argument i j =>
    obtain ⟨a, position, -⟩ := violated
    simp only [text?, position, Option.map_some, Option.some.injEq] at asked
    exact asked ▸ (worded_null (null position)).2
  | grammar i j | input i j =>
    obtain ⟨q, position, -⟩ := violated
    cases null position

/-- The first of two directives has no location, and the second an unknown one; when the argument of
the second is refused, both were warned of. It is refused all the same when the first has an unknown
location. -/
theorem misplaced_directive_is_warned_of :
    let vs : List Value := [.directive ⟨2⟩, .directive ⟨3⟩]
    Legible laxSession vs ∧ Described laxSession vs ∧ ¬Valid laxSession vs ∧
    (∃ c f s', validate Deferred.supplier (.tuple 10 vs) laxSession = .error f s' ∧
      First laxSession vs c ∧ Reports laxSession vs c f ∧
        Logs laxSession laxSession s' ((vs.take c.passed).flatMap (warningsOf laxSession))) ∧
    outcome laxSession (.tuple 10 vs) =
      outcome laxSession (.tuple 11 [.directive ⟨4⟩, .directive ⟨3⟩]) := by
  intro vs
  have sub : vs ⊆ laxDirectives := by simp [vs, laxDirectives]
  have sub' : [.directive ⟨4⟩, .directive ⟨3⟩] ⊆ laxDirectives := by simp [laxDirectives]
  have resolvable : Resolvable laxSession vs := by
    intro v hv q hq
    obtain ⟨r, -, -, -, nulls⟩ := lax_of_mem (sub hv)
    cases nulls _ hq
  have invalid : ¬Valid laxSession vs := by
    refine fun valid => valid.not_violated (.argument 1 0) ⟨.null, rfl, rfl⟩
  have relocated : List.Forall₂ (Relocates laxSession) vs [.directive ⟨4⟩, .directive ⟨3⟩] :=
    .cons (.inr ⟨⟨2⟩, ⟨4⟩, rfl, rfl, rfl, rfl⟩) (.cons (.inl rfl) .nil)
  refine ⟨legible_lax sub, described_lax sub, invalid, ?_, ?_⟩
  · exact (locations_are_only_warned_of.1 rfl (live_lax sub) resolvable (legible_lax sub)
      (described_lax sub)).2 invalid
  · exact locations_are_only_warned_of.2 rfl rfl relocated (live_lax sub) (live_lax sub') resolvable
      (legible_lax sub) (legible_lax sub') fun c text => settled_lax sub

end DirectiveSchema.Validation

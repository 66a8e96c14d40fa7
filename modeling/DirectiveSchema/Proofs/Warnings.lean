import DirectiveSchema.Proofs.Verdict
import Mathlib.Data.List.Forall2

/-!
Warnings of a validation. An entry is warned of once it is known as a directive with a name of its
own, whatever becomes of its arguments: so the warnings are those of the entries before the first
violated check, in their order.
-/
namespace DirectiveSchema

variable {s s' s₁ s₂ u : Session}

/-- The warnings among the notices that were given. -/
def Session.warnings (s : Session) : List Notice := s.journal.filter Notice.isWarning

/-- Nothing was warned of from one session to another. -/
def Session.Quiet (s s' : Session) : Prop := s'.warnings = s.warnings

namespace Session.Quiet

theorem lasting : Lasting Session.Quiet where
  refl _ := rfl
  trans h h' := Eq.trans h' h

/-- Deferred types may build directives, which is noted, but nothing that they do is warned of. -/
theorem calling : Calling Session.Quiet where
  toLasting := lasting
  freshTag _ := rfl
  newList _ _ := rfl
  newSet _ _ := rfl
  newDict _ _ := rfl
  newNamedType _ _ := rfl
  newScalar _ _ := rfl
  newWrapper _ _ := rfl
  newArgument _ _ := rfl
  newDirective _ _ := rfl
  created name locations s := by
    show (s.journal ++ [Notice.created name locations]).filter _ = s.journal.filter _
    simp [Notice.isWarning]
  count _ _ := rfl
  wrapped := lasting.wrapped fun kept _ _ _ => kept
  type := lasting.type fun kept _ _ => kept

theorem reading : Resolving Deferred.supplier.answer Session.Quiet := calling.reading

end Session.Quiet

namespace Validation

variable {vs us ys : List Value} {v : Value} {r : Ref .directive} {c c' : Check} {i k n : Nat}
  {seen : List String}

/-! ### What is warned of -/

/-- What a directive is warned of for. -/
inductive Warning where
  | noLocation (directive : String)
  | unknownLocation (location : Value) (directive : String)

/-- A warning is given by a notice, with the text that a location has when it is given. -/
def Warning.Gives (s : Session) : Warning → Notice → Prop
  | .noLocation directive, n => n = .noLocation directive
  | .unknownLocation location directive, n => ∃ shown,
    Yields s (Display.literal Deferred.supplier location) shown ∧
      n = .unknownLocation shown directive

/-- The warnings for the unknown ones among locations. -/
def unknownLocations (directive : String) (locations : List Value) : List Warning :=
  (locations.filter fun l => !l.isLocation).map (.unknownLocation · directive)

/-- What is warned of when an entry is a directive with a name of its own: that it has no location,
or each location that is unknown. -/
def warningsOf (s : Session) : Value → List Warning
  | .directive r =>
    let d := s.directive r
    let name := Directives.nameText d.name
    (if d.locations.items.isEmpty then [.noLocation name] else []) ++
      unknownLocations name d.locations.items
  | _ => []

/-- From one session to another, the warnings were given, in this order, and no others. -/
def Logs (s s₁ s₂ : Session) (ws : List Warning) : Prop :=
  ∃ notices, s₂.warnings = s₁.warnings ++ notices ∧ List.Forall₂ (Warning.Gives s) ws notices

theorem Logs.quiet (h : s₁.Quiet s₂) : Logs s s₁ s₂ [] := ⟨[], by rw [h, List.append_nil], .nil⟩

theorem Logs.trans {ws ws' : List Warning} (h : Logs s s₁ s₂ ws) (h' : Logs s s₂ u ws') :
    Logs s s₁ u (ws ++ ws') := by
  obtain ⟨notices, first, gives⟩ := h
  obtain ⟨notices', second, gives'⟩ := h'
  refine ⟨notices ++ notices', ?_, List.rel_append gives gives'⟩
  rw [second, first, List.append_assoc]

theorem Logs.before {ws : List Warning} (h : s₁.Quiet s₂) (h' : Logs s s₂ u ws) :
    Logs s s₁ u ws := (Logs.quiet h).trans h'

theorem Logs.andThen {ws : List Warning} (h : Logs s s₁ s₂ ws) (h' : s₂.Quiet u) :
    Logs s s₁ u ws := by simpa using h.trans (Logs.quiet h')

/-- The texts of the locations that are warned of can be made. -/
def Described (s : Session) (vs : List Value) : Prop :=
  ∀ {r : Ref .directive} {l : Value}, .directive r ∈ vs → l ∈ (s.directive r).locations.items →
    l.isLocation = false → Answers s (Display.literal Deferred.supplier l)

theorem logs_note {w : Warning} {n : Notice} (warns : n.isWarning = true) (gives : w.Gives s n) :
    Logs s s₁ { s₁ with journal := s₁.journal ++ [n] } [w] := by
  refine ⟨[n], ?_, .cons gives .nil⟩
  simp [Session.warnings, warns]

theorem warnLocations_logs {name : String} {ls : List Value} (later : s.Leads s₁)
    (described : ∀ l ∈ ls, l.isLocation = false → Answers s (Display.literal Deferred.supplier l))
    (run : warnLocations Deferred.supplier name ls s₁ = .ok () s₂) :
    Logs s s₁ s₂ (unknownLocations name ls) := by
  induction ls generalizing s₁ with
  | nil =>
    cases run
    exact .quiet rfl
  | cons l ls ih =>
    have others : ∀ l ∈ ls, l.isLocation = false →
        Answers s (Display.literal Deferred.supplier l) := fun l hl =>
      described l (List.mem_cons_of_mem _ hl)
    rw [warnLocations] at run
    cases known : l.isLocation with
    | true =>
      rw [known] at run
      simpa [unknownLocations, known] using ih later others run
    | false =>
      rw [known] at run
      obtain ⟨shown, s₃, written⟩ := described l List.mem_cons_self known s₁ later
      have warned : warnUnknown Deferred.supplier name l s₁ =
          .ok () { s₃ with journal := s₃.journal ++ [.unknownLocation shown name] } := by
        refine Action.tryCatch_of_ok ?_
        rw [Action.bind_of_ok written]
        rfl
      have next := (Action.bind_of_ok warned).symm.trans run
      have leads₁ := later.trans ((leads.warnUnknown [] name l).of_ok warned)
      have first : Logs s s₁ { s₃ with journal := s₃.journal ++ [.unknownLocation shown name] }
          [.unknownLocation l name] :=
        .before ((Session.Quiet.reading.literal [] l).of_ok written)
          (logs_note rfl ⟨shown, ⟨s₁, s₃, later, written⟩, rfl⟩)
      simpa [unknownLocations, known] using first.trans (ih leads₁ others next)

theorem checkLocations_logs {d : Directive} {name : String} (later : s.Leads s₁)
    (described : ∀ l ∈ d.locations.items, l.isLocation = false →
      Answers s (Display.literal Deferred.supplier l))
    (run : checkLocations Deferred.supplier name d.locations.items s₁ = .ok () s₂) :
    Logs s s₁ s₂ ((if d.locations.items.isEmpty then [.noLocation name] else []) ++
      unknownLocations name d.locations.items) := by
  rw [checkLocations] at run
  split at run
  next none =>
    rw [if_pos none]
    have noted : s₁.Leads { s₁ with journal := s₁.journal ++ [.noLocation name] } :=
      leads.note (.noLocation name) s₁
    have first : Logs s s₁ { s₁ with journal := s₁.journal ++ [.noLocation name] }
        [.noLocation name] := logs_note rfl (by rfl)
    exact first.trans (warnLocations_logs (later.trans noted) described run)
  next some =>
    rw [if_neg some]
    exact warnLocations_logs later described run

/-! ### Entries that are passed -/

/-- The names of directives, after those that were seen before. -/
def seenAfter (s : Session) (seen : List String) (us : List Value) : List String :=
  (us.filterMap (directiveName? s)).reverse ++ seen

theorem name_of_live (r : Ref .directive) :
    directiveName? s (.directive r) = some (Directives.nameText (s.directive r).name) := by
  have named := (s.directive r).named
  cases spelt : (s.directive r).name.text? with
  | some n => simp [directiveName?, Directives.nameText, spelt]
  | none => simp [Value.isName, spelt] at named

/-- What is left of an entry that is a directive with a name of its own, once it was warned of. -/
theorem checkDirectives_entered (later : s.Leads s₁)
    (live : r.index < s.directives.size)
    (described : ∀ l ∈ (s.directive r).locations.items, l.isLocation = false →
      Answers s (Display.literal Deferred.supplier l))
    {shown : String} (written : Display.literal Deferred.supplier (.directive r) s₁ = .ok shown s₂)
    (new : Directives.nameText (s.directive r).name ∉ seen) :
    ∃ s₃, s.Leads s₃ ∧ Logs s s₁ s₃ (warningsOf s (.directive r)) ∧
      ∀ rest, checkDirectives Deferred.supplier seen (.directive r :: rest) s₁ =
        (checkArguments Deferred.supplier (Directives.nameText (s.directive r).name) []
            (s.directive r).args.items >>= fun _ =>
          checkDirectives Deferred.supplier (Directives.nameText (s.directive r).name :: seen) rest)
        s₃ := by
  have later₂ : s.Leads s₂ := later.trans ((leads.literal [] _).of_ok written)
  obtain ⟨s₃, warned⟩ := checkLocations_returns Deferred.supplier
    (Directives.nameText (s.directive r).name) (s.directive r).locations.items s₂
  refine ⟨s₃, later₂.trans ((leads.checkLocations [] _ _).of_ok warned), ?_, fun rest => ?_⟩
  · exact .before ((Session.Quiet.reading.literal [] _).of_ok written)
      (checkLocations_logs later₂ described warned)
  · rw [checkDirectives_directive, Action.bind_of_ok written, Action.get_bind,
      later₂.extends.directive live, if_neg fun h => new (List.contains_iff_mem.1 h)]
    exact Action.bind_of_ok warned

/-- Entries that are passed are warned of one after the other, and then the rest is checked. -/
theorem checkDirectives_passed (later : s.Leads s₁)
    (live : ∀ {r : Ref .directive}, .directive r ∈ us → r.index < s.directives.size)
    (described : Described s us)
    (run : checkDirectives Deferred.supplier seen us s₁ = .ok () s₂) :
    Logs s s₁ s₂ (us.flatMap (warningsOf s)) ∧
      ∀ ys, checkDirectives Deferred.supplier seen (us ++ ys) s₁ =
        checkDirectives Deferred.supplier (seenAfter s seen us) ys s₂ := by
  induction us generalizing seen s₁ with
  | nil =>
    cases run
    exact ⟨.quiet rfl, fun ys => rfl⟩
  | cons v us ih =>
    cases v with
    | directive r =>
      have passed := run
      rw [checkDirectives_directive] at run
      obtain ⟨shown, s₃, written, run⟩ := Action.ok_of_bind run
      have new : Directives.nameText (s.directive r).name ∉ seen := by
        intro among
        have later₃ : s.Leads s₃ := later.trans ((leads.literal [] _).of_ok written)
        rw [Action.get_bind, later₃.extends.directive (live List.mem_cons_self),
          if_pos (List.contains_iff_mem.2 among)] at run
        cases run
      obtain ⟨s₄, later₄, first, entered⟩ := checkDirectives_entered later
        (live List.mem_cons_self) (fun l hl => described List.mem_cons_self hl) written new
      rw [entered] at passed
      obtain ⟨_, s₅, checked, rest⟩ := Action.ok_of_bind passed
      obtain ⟨logs, continues⟩ := ih (later₄.trans ((leads.checkArguments [] _ _ _).of_ok checked))
        (fun hr => live (List.mem_cons_of_mem _ hr))
        (fun hr => described (List.mem_cons_of_mem _ hr)) rest
      have silent := (Session.Quiet.reading.checkArguments [] _ _ _).of_ok checked
      refine ⟨first.trans (.before silent logs), fun ys => ?_⟩
      rw [List.cons_append, entered, Action.bind_of_ok checked, continues]
      simp [seenAfter, name_of_live]
    | _ =>
      simp only [checkDirectives] at run
      obtain ⟨shown, s₃, -, failed⟩ := Action.ok_of_bind run
      cases failed

/-! ### The first violated check -/

namespace Check

/-- The position of the entry that a check is about. -/
def position : Check → Nat
  | entry i | name i | argument i _ | grammar i _ | repetition i _ | input i _ => i

/-- How many entries are directives with names of their own when a check is reached: the entry that
it is about counts unless the check is whether it is one. -/
def passed : Check → Nat
  | entry i | name i => i
  | argument i _ | grammar i _ | repetition i _ | input i _ => i + 1

end Check

theorem checksFrom_append (xs ys : List Value) :
    checksFrom s k (xs ++ ys) = checksFrom s k xs ++ checksFrom s (k + xs.length) ys := by
  induction xs generalizing k with
  | nil => rfl
  | cons x xs ih =>
    have next : k + 1 + xs.length = k + (xs.length + 1) := by omega
    simp [checksFrom, ih, next]

theorem position_of_argumentChecks {as : List Value} {j : Nat} (h : c ∈ argumentChecks i j as) :
    c.position = i := by
  induction as generalizing j with
  | nil => cases h
  | cons a as ih =>
    simp only [argumentChecks, List.mem_cons] at h
    rcases h with rfl | rfl | rfl | rfl | h
    · rfl
    · rfl
    · rfl
    · rfl
    · exact ih h

theorem position_lt (h : c ∈ checksFrom s k us) : c.position < k + us.length := by
  induction us generalizing k with
  | nil => cases h
  | cons u us ih =>
    simp only [checksFrom, List.mem_cons, List.mem_append, List.length_cons] at h ⊢
    rcases h with rfl | rfl | h | h
    · simp only [Check.position]
      omega
    · simp only [Check.position]
      omega
    · rw [position_of_argumentChecks h]
      omega
    · have := ih h
      omega

/-- Whether a check is violated is decided by the entries up to the one that it is about. -/
theorem violated_take (h : c.position < n) : Violated s (vs.take n) c ↔ Violated s vs c := by
  cases c <;> simp only [Check.position] at h <;>
    simp [Violated, argumentAt?, List.getElem?_take_of_lt h, List.take_take, Nat.min_eq_left (Nat.le_of_lt h)]

/-- No check is violated that comes before the first violated one. -/
theorem First.kept_before (first : First s vs c) {before rest : List Check}
    (split : checks s vs = before ++ c' :: rest) (other : c ∉ before) (ne : c ≠ c') :
    ¬Violated s vs c' := by
  obtain ⟨⟨earlier, later, split', kept⟩, -⟩ := first
  rcases before_or_eq (split'.symm.trans split) with h | h | h
  · exact absurd h other
  · exact kept c' h
  · exact absurd h ne

theorem checks_take (vs : List Value) (n : Nat) :
    checks s vs = checks s (vs.take n) ++ checksFrom s (vs.take n).length (vs.drop n) := by
  have split := checksFrom_append (s := s) (k := 0) (vs.take n) (vs.drop n)
  rw [List.take_append_drop, Nat.zero_add] at split
  exact split

theorem position_lt_of_mem_checks (h : c ∈ checks s us) : c.position < us.length := by
  simpa using position_lt h

/-- The name of an entry is checked before its arguments are. -/
theorem First.name_kept (first : First s vs c) (stands : vs[c.position]? = some v)
    (ne : c ≠ .entry c.position ∧ c ≠ .name c.position) : ¬Violated s vs (.name c.position) := by
  obtain ⟨inside, rfl⟩ := List.getElem?_eq_some_iff.1 stands
  have whole := checks_take (s := s) vs c.position
  rw [List.drop_eq_getElem_cons inside, List.length_take_of_le (Nat.le_of_lt inside), checksFrom,
    List.append_cons] at whole
  refine first.kept_before whole (fun among => ?_) ne.2
  rcases List.mem_append.1 among with among | among
  · have := position_lt_of_mem_checks among
    rw [List.length_take_of_le (Nat.le_of_lt inside)] at this
    exact Nat.lt_irrefl _ this
  · exact ne.1 (List.mem_singleton.1 among)

theorem Live.sub (h : Live s vs) (sub : us ⊆ vs) : Live s us :=
  ⟨fun hr => h.directive (sub hr), fun hv => h.argument (sub hv)⟩

theorem Resolvable.sub (h : Resolvable s vs) (sub : us ⊆ vs) : Resolvable s us :=
  fun v hv => h v (sub hv)

theorem Legible.sub (h : Legible s vs) (sub : us ⊆ vs) : Legible s us where
  entry hv := h.entry (sub hv)
  location hr := h.location (sub hr)
  argument hv := h.argument (sub hv)
  name hv := h.name (sub hv)
  type hv := h.type (sub hv)

/-- The entries before the one that the first violated check is about are valid. -/
theorem valid_before (resolvable : Resolvable s vs) (first : First s vs c) :
    Valid s (vs.take c.position) := by
  have short : (vs.take c.position).length ≤ c.position := List.length_take_le _ _
  refine (valid_iff (resolvable.sub (List.take_subset _ _))).2 fun c' hc' violated => ?_
  have before : c'.position < c.position := by
    have := position_lt_of_mem_checks hc'
    omega
  obtain ⟨earlier, later, split⟩ := List.append_of_mem hc'
  have whole := checks_take (s := s) vs c.position
  rw [split, List.append_assoc] at whole
  refine first.kept_before whole (fun among => ?_) ?_ ((violated_take before).1 violated)
  · have := position_lt_of_mem_checks (split ▸ List.mem_append_left _ among)
    omega
  · rintro rfl
    exact Nat.lt_irrefl _ before

/-- Valid entries are passed. -/
theorem passes_of_valid (live : Live s us) (resolvable : Resolvable s us) (legible : Legible s us)
    (valid : Valid s us) : ∃ s', checkDirectives Deferred.supplier [] us s = .ok () s' :=
  have entries : entries? s (.tuple 0 us) = some us := rfl
  (verdict_of_answers entries live resolvable fun _ _ _ asked => legible.answers live asked).1 valid

theorem valid_of_passes (live : Live s us) (resolvable : Resolvable s us)
    (run : checkDirectives Deferred.supplier [] us s = .ok () s') : Valid s us :=
  have entries : entries? s (.tuple 0 us) = some us := rfl
  have accepted : validate Deferred.supplier (.tuple 0 us) s = .ok () s' := run
  valid_of_validate entries live resolvable accepted

section

variable {f : Fault} {rest : List Value}

/-- An entry that is no directive is not warned of. -/
theorem quiet_of_entry (other : v.isDirective = false)
    (run : checkDirectives Deferred.supplier seen (v :: rest) s₁ = .error f s') : s₁.Quiet s' := by
  have kept : Keeps Session.Quiet (do
      let shown ← Display.literal Deferred.supplier v
      throw (.notDirective shown) : Action Unit) :=
    Session.Quiet.reading.bind (Session.Quiet.reading.literal [] v) fun _ =>
      Session.Quiet.reading.throw _
  cases v with
  | directive r => cases other
  | _ => exact kept.of_error run

/-- Neither is a directive whose name was seen. -/
theorem quiet_of_name (later : s.Leads s₁) (live : r.index < s.directives.size)
    (repeated : Directives.nameText (s.directive r).name ∈ seen)
    (run : checkDirectives Deferred.supplier seen (.directive r :: rest) s₁ = .error f s') :
    s₁.Quiet s' := by
  rw [checkDirectives_directive] at run
  cases written : Display.literal Deferred.supplier (.directive r) s₁ with
  | error g s₂ =>
    cases (Action.bind_of_error written).symm.trans run
    exact (Session.Quiet.reading.literal [] _).of_error written
  | ok shown s₂ =>
    have later₂ : s.Leads s₂ := later.trans ((leads.literal [] _).of_ok written)
    rw [Action.bind_of_ok written, Action.get_bind, later₂.extends.directive live,
      if_pos (List.contains_iff_mem.2 repeated)] at run
    cases run
    exact (Session.Quiet.reading.literal [] _).of_ok written

/-- A directive whose arguments are refused was warned of. -/
theorem logs_of_arguments (live : Live s vs) (resolvable : Resolvable s vs)
    (legible : Legible s vs) (described : Described s vs) (stands : vs[i]? = some (.directive r))
    (violated : Violated s vs c) (position : c.position = i)
    (new : Directives.nameText (s.directive r).name ∉ seenAfter s [] (vs.take i))
    (later : s.Leads s₁)
    (continues : ∀ ys, checkDirectives Deferred.supplier [] (vs.take i ++ ys) s =
      checkDirectives Deferred.supplier (seenAfter s [] (vs.take i)) ys s₁)
    (run : checkDirectives Deferred.supplier (seenAfter s [] (vs.take i)) (.directive r :: rest) s₁ =
      .error f s') :
    Logs s s₁ s' (warningsOf s (.directive r)) := by
  have among : .directive r ∈ vs := List.mem_of_getElem? stands
  have asked : text? s vs (.entry i) =
      some (Display.literal Deferred.supplier (.directive r)) := by
    simp only [text?, stands, Option.map_some]
  obtain ⟨shown, s₂, written⟩ := legible.answers live asked s₁ later
  obtain ⟨s₃, later₃, logs, entered⟩ := checkDirectives_entered later (live.directive among)
    (fun l hl => described among hl) written new
  rw [entered] at run
  cases checked : checkArguments Deferred.supplier (Directives.nameText (s.directive r).name) []
      (s.directive r).args.items s₃ with
  | error g s₄ =>
    cases (Action.bind_of_error checked).symm.trans run
    exact logs.andThen ((Session.Quiet.reading.checkArguments [] _ _ _).of_error checked)
  | ok _ s₄ =>
    -- Otherwise the entries up to this one would be valid.
    have sub : vs.take (i + 1) ⊆ vs := List.take_subset _ _
    have upTo : vs.take (i + 1) = vs.take i ++ [.directive r] := by
      rw [List.take_add_one, stands]
      rfl
    have passes : checkDirectives Deferred.supplier [] (vs.take (i + 1)) s = .ok () s₄ := by
      rw [upTo, continues, entered, Action.bind_of_ok checked]
      rfl
    have valid := valid_of_passes (live.sub sub) (resolvable.sub sub) passes
    exact absurd ((violated_take (by omega)).2 violated) (valid.not_violated c)

end

/-- What a validation was warned of when it ends at the first violated check. -/
theorem logs_of_first (live : Live s vs) (resolvable : Resolvable s vs) (legible : Legible s vs)
    (described : Described s vs) (first : First s vs c) {f : Fault}
    (run : checkDirectives Deferred.supplier [] vs s = .error f s') :
    Logs s s s' ((vs.take c.passed).flatMap (warningsOf s)) := by
  have sub : vs.take c.position ⊆ vs := List.take_subset _ _
  obtain ⟨s₁, passed⟩ := passes_of_valid (live.sub sub) (resolvable.sub sub) (legible.sub sub)
    (valid_before resolvable first)
  have later : s.Leads s₁ := (leads.checkDirectives [] _ _).of_ok passed
  obtain ⟨logs, continues⟩ := checkDirectives_passed .refl (fun hr => live.directive (sub hr))
    (fun hr => described (sub hr)) passed
  have goesOn {v : Value} (stands : vs[c.position]? = some v) :
      checkDirectives Deferred.supplier (seenAfter s [] (vs.take c.position))
        (v :: vs.drop (c.position + 1)) s₁ = .error f s' := by
    obtain ⟨inside, rfl⟩ := List.getElem?_eq_some_iff.1 stands
    rw [← continues, ← List.drop_eq_getElem_cons inside, List.take_append_drop]
    exact run
  have atArgument {j : Nat} {a : Value} (position : argumentAt? s vs c.position j = some a)
      (counts : c.passed = c.position + 1) (ne : c ≠ .entry c.position ∧ c ≠ .name c.position) :
      Logs s s s' ((vs.take c.passed).flatMap (warningsOf s)) := by
    obtain ⟨v, stands, argumentStands⟩ := argumentAt?_eq_some.1 position
    cases v with
    | directive r =>
      have new : Directives.nameText (s.directive r).name ∉ seenAfter s [] (vs.take c.position) :=
        fun repeated => first.name_kept stands ne
          ⟨_, _, stands, name_of_live r, by simpa [seenAfter] using repeated⟩
      have more := logs_of_arguments live resolvable legible described stands first.2 rfl new later
        continues (goesOn stands)
      rw [counts, List.take_add_one, stands, List.flatMap_append]
      simpa using logs.trans more
    | _ => cases argumentStands
  have violated := first.2
  cases c with
  | entry i =>
    obtain ⟨v, stands, other⟩ := violated
    exact logs.andThen (quiet_of_entry other (goesOn stands))
  | name i =>
    obtain ⟨v, name, stands, named, repeated⟩ := violated
    cases v with
    | directive r =>
      obtain rfl := Option.some.inj ((name_of_live r).symm.trans named)
      have among := List.mem_of_getElem? stands
      refine logs.andThen (quiet_of_name later (live.directive among) ?_ (goesOn stands))
      simpa [seenAfter, Check.position] using repeated
    | _ => cases named
  | argument i j =>
    obtain ⟨a, position, -⟩ := violated
    exact atArgument position rfl ⟨nofun, nofun⟩
  | grammar i j =>
    obtain ⟨q, position, -⟩ := violated
    exact atArgument position rfl ⟨nofun, nofun⟩
  | repetition i j =>
    obtain ⟨v, a, name, stands, argumentStands, -⟩ := violated
    exact atArgument (argumentAt?_eq_some.2 ⟨v, stands, argumentStands⟩) rfl ⟨nofun, nofun⟩
  | input i j =>
    obtain ⟨q, position, -⟩ := violated
    exact atArgument position rfl ⟨nofun, nofun⟩

end Validation

end DirectiveSchema

import DirectiveSchema.Proofs.Checks

/-!
Scans of checks. A scan makes the checks of a collection one after the other: it passes
those that are not violated, and stops at the first that is, or at one whose text cannot be made.
The loops over directives and over arguments are such scans.
-/
namespace DirectiveSchema.Validation

variable {s : Session} {vs : List Value}

/-- A check that is not violated, and whose text was made if it has one. -/
structure Passed (s : Session) (vs : List Value) (c : Check) : Prop where
  kept : ¬Violated s vs c
  shown {text : Action String} : text? s vs c = some text → ∃ shown, Yields s text shown

/-- A result to which a scan of checks may come. -/
inductive Scanned (s : Session) (vs : List Value) :
    List Check → EStateM.Result Fault Session Unit → Prop where
  | done {s' : Session} : Scanned s vs [] (.ok () s')
  | pass {c : Check} {cs : List Check} {result : EStateM.Result Fault Session Unit} :
      Passed s vs c → Scanned s vs cs result → Scanned s vs (c :: cs) result
  | stop {c : Check} {cs : List Check} {f : Fault} {s' : Session} :
      Violated s vs c → Reports s vs c f → Scanned s vs (c :: cs) (.error f s')
  | fail {c : Check} {cs : List Check} {f : Fault} {s' : Session} :
      Fails s vs c f → Scanned s vs (c :: cs) (.error f s')

namespace Scanned

/-- One scan after the other. -/
theorem append {x y : Action Unit} {cs cs' : List Check} {s₁ : Session}
    (first : Scanned s vs cs (x s₁))
    (rest : ∀ s₂, x s₁ = .ok () s₂ → Scanned s vs cs' (y s₂)) :
    Scanned s vs (cs ++ cs') ((x >>= fun _ => y) s₁) := by
  generalize run : x s₁ = result at first
  induction first with
  | done =>
    rw [Action.bind_of_ok run]
    exact rest _ run
  | pass passed _ ih => exact .pass passed (ih run)
  | stop violated reports =>
    rw [Action.bind_of_error run]
    exact .stop violated reports
  | fail fails =>
    rw [Action.bind_of_error run]
    exact .fail fails

end Scanned

/-! ### The steps of a scan -/

section

variable {supply : Supplier} {q : Ref .argument} {name : Value} {shown : String} {s' : Session}

/-- An argument that can be written has a name. -/
theorem name_of_label (h : Display.label supply (.argument q) s = .ok shown s') :
    ∃ name, (s.argument q).name = some name := by
  obtain ⟨n, -, bounded⟩ := Action.boundedPairs_succ (Value.depth (.argument q))
    (fun n => Display.write n supply .label (.argument q)) s
  have run : Display.write (n + 1) supply .label (.argument q) s = .ok shown s' := bounded ▸ h
  simp only [Display.write] at run
  obtain ⟨name, s₁, named, -⟩ := Action.ok_of_bind run
  rw [Arguments.name_eq] at named
  cases present : (s.argument q).name with
  | some name => exact ⟨name, rfl⟩
  | none =>
    rw [present] at named
    cases named

theorem argumentName_of_valid (named : (s.argument q).name = some name)
    (valid : name.isName = true) : argumentName supply q s = .ok name s := by
  have read : Arguments.name q s = .ok name s := by rw [Arguments.name_eq, named]; rfl
  simp only [argumentName]
  refine Action.tryCatch_of_ok ?_
  rw [Action.bind_of_ok read]
  simp only [Directives.assertName, valid]
  rfl

/-- An invalid name is refused by its text. -/
theorem assertName_of_invalid (invalid : name.isName = false) :
    (Directives.assertName supply name >>= fun n => pure n.val : Action Value) =
      (Display.label supply name >>= fun shown => throw (.invalidName shown name)) := by
  simp only [Directives.assertName, invalid, Bool.false_eq_true, ↓reduceDIte, bind_assoc]
  rfl

theorem argumentName_of_invalid (named : (s.argument q).name = some name)
    (invalid : name.isName = false) (text : Display.label supply name s = .ok shown s') :
    argumentName supply q s = .error (.invalidArgumentName (.invalidName shown name)) s' := by
  have read : Arguments.name q s = .ok name s := by rw [Arguments.name_eq, named]; rfl
  have refused : (do return (← Directives.assertName supply (← Arguments.name q)).val) s =
      .error (.invalidName shown name) s' := by
    rw [Action.bind_of_ok read, assertName_of_invalid invalid, Action.bind_of_ok text]
    rfl
  exact Action.tryCatch_of_error refused

theorem argumentName_of_failing {g : Fault} (named : (s.argument q).name = some name)
    (invalid : name.isName = false) (text : Display.label supply name s = .error g s') (i j : Nat) :
    argumentName supply q s = .error ((Check.grammar i j).surface g) s' := by
  have read : Arguments.name q s = .ok name s := by rw [Arguments.name_eq, named]; rfl
  have refused :
      (do return (← Directives.assertName supply (← Arguments.name q)).val) s = .error g s' := by
    rw [Action.bind_of_ok read, assertName_of_invalid invalid, Action.bind_of_error text]
  exact Action.tryCatch_of_error refused

end

section

variable {cs : List Check} {i j : Nat} {v a : Value} {q : Ref .argument}
  {directive : String} {s₁ : Session}

/-- Every observation of a validation leads to a later session. -/
theorem leads : Observed Deferred.supplier.answer Session.Leads := Later.observed _

/-- Whether the type of an argument is an input type is known before it is looked at. -/
theorem isInput_of_resolves {isScalar : Bool} (h : Resolves s q isScalar) (later : s.Leads s₁)
    (next : Bool → Action Unit) :
    ∃ s₂, s.Leads s₂ ∧ (do
      let ok ← Types.isInput Deferred.supplier (← Arguments.type Deferred.supplier q)
      next ok : Action Unit) s₁ = next isScalar s₂ := by
  obtain ⟨t, s₂, run, rfl⟩ := h s₁ later
  have kept : Keeps Session.Leads
      (Arguments.type Deferred.supplier q >>= Types.unwrap Deferred.supplier) :=
    leads.bind (leads.type [] q) fun t => leads.unwrap [] t
  refine ⟨s₂, later.trans (kept.of_ok run), ?_⟩
  simp only [Types.isInput, bind_assoc, pure_bind]
  rw [← bind_assoc, Action.bind_of_ok run]

/-- The check of a type. -/
theorem Scanned.type {name : String} {next : Action Unit} (stands : vs[i]? = some v)
    (named : directiveName? s v = some directive)
    (position : argumentAt? s vs i j = some (.argument q))
    (argumentNamed : argumentName? s (.argument q) = some name)
    (resolves : ∃ isScalar, Resolves s q isScalar) (later : s.Leads s₁)
    (rest : ∀ s₂, s.Leads s₂ → Scanned s vs cs (next s₂)) :
    Scanned s vs (.input i j :: cs) ((do
      let ok ← Types.isInput Deferred.supplier (← Arguments.type Deferred.supplier q)
      let shown ← Display.label Deferred.supplier (← Arguments.type Deferred.supplier q)
      unless ok do throw (.notInputType name directive shown)
      next : Action Unit) s₁) := by
  obtain ⟨isScalar, resolves⟩ := resolves
  obtain ⟨s₂, later₂, run⟩ := isInput_of_resolves resolves later fun ok => do
    let shown ← Display.label Deferred.supplier (← Arguments.type Deferred.supplier q)
    unless ok do throw (.notInputType name directive shown)
    next
  rw [run, ← bind_assoc]
  have asked : text? s vs (.input i j) =
      some (Arguments.type Deferred.supplier q >>= Display.label Deferred.supplier) := by
    simp only [text?, position]
  cases text : (Arguments.type Deferred.supplier q >>= Display.label Deferred.supplier) s₂ with
  | error f s₃ =>
    rw [Action.bind_of_error text]
    exact .fail ⟨_, f, asked, ⟨s₂, s₃, later₂, text⟩, rfl⟩
  | ok shown s₃ =>
    rw [Action.bind_of_ok text]
    have made : Shown s vs (.input i j) shown := ⟨_, asked, s₂, s₃, later₂, text⟩
    cases isScalar with
    | false => exact .stop ⟨q, position, resolves⟩ (.input stands named position argumentNamed made)
    | true =>
      have kept : Keeps Session.Leads
          (Arguments.type Deferred.supplier q >>= Display.label Deferred.supplier) :=
        leads.bind (leads.type [] q) fun t => leads.label [] t
      refine .pass ⟨?_, ?_⟩ (rest s₃ (later₂.trans (kept.of_ok text)))
      · rintro ⟨q', position', refuses⟩
        rw [position] at position'
        cases position'
        obtain ⟨t, s', run, isScalar⟩ := resolves s .refl
        obtain ⟨t', s'', run', notScalar⟩ := refuses s .refl
        rw [run] at run'
        cases run'
        rw [isScalar] at notScalar
        cases notScalar
      · intro text' asked'
        rw [asked] at asked'
        cases asked'
        exact ⟨shown, s₂, s₃, later₂, text⟩

/-- The checks of a name. The names that were seen are those of the arguments before it. -/
theorem Scanned.name {name : Value} {seen : List String} (next : String → Action Unit)
    (stands : vs[i]? = some v) (named : directiveName? s v = some directive)
    (argumentStands : (argsOf s v)[j]? = some (.argument q))
    (seen_iff : ∀ n, n ∈ seen ↔ n ∈ ((argsOf s v).take j).filterMap (argumentName? s))
    (live : q.index < s.arguments.size) (present : (s.argument q).name = some name)
    (later : s.Leads s₁)
    (rest : ∀ n s₂, argumentName? s (.argument q) = some n → s.Leads s₂ →
      Scanned s vs cs (next n s₂)) :
    Scanned s vs (.grammar i j :: .repetition i j :: cs) ((do
      let n := Directives.nameText (← argumentName Deferred.supplier q)
      if seen.contains n then throw (.duplicateArgument n directive)
      next n : Action Unit) s₁) := by
  have position : argumentAt? s vs i j = some (.argument q) := by
    simp [argumentAt?, stands, argumentStands]
  have present₁ : (s₁.argument q).name = some name := by
    rw [(later.extends.argument live).name, present]
  cases valid : name.isName with
  | false =>
    have asked : text? s vs (.grammar i j) = some (Display.label Deferred.supplier name) := by
      simp [text?, position, present, valid]
    have violated : Violated s vs (.grammar i j) := by
      refine ⟨q, position, fun name' present' => ?_⟩
      rw [present] at present'
      cases present'
      exact valid
    cases text : Display.label Deferred.supplier name s₁ with
    | ok shown s₂ =>
      rw [Action.bind_of_error (argumentName_of_invalid present₁ valid text)]
      exact .stop violated (.grammar position present ⟨_, asked, s₁, s₂, later, text⟩)
    | error g s₂ =>
      rw [Action.bind_of_error (argumentName_of_failing present₁ valid text i j)]
      exact .fail ⟨_, g, asked, ⟨s₁, s₂, later, text⟩, rfl⟩
  | true =>
    obtain ⟨n, spelt⟩ : ∃ n, name.text? = some n := by
      cases spelt : name.text? with
      | some n => exact ⟨n, rfl⟩
      | none => simp [Value.isName, spelt] at valid
    have argumentNamed : argumentName? s (.argument q) = some n := by
      simp [argumentName?, present, spelt]
    have text : Directives.nameText name = n := by simp [Directives.nameText, spelt]
    rw [Action.bind_of_ok (argumentName_of_valid present₁ valid)]
    refine .pass ⟨?_, ?_⟩ ?_
    · rintro ⟨q', position', invalid⟩
      rw [position] at position'
      cases position'
      rw [invalid name present] at valid
      cases valid
    · intro text asked
      simp [text?, position, present, valid] at asked
    · simp only [text]
      by_cases repeated : n ∈ seen
      · rw [if_pos (List.contains_iff_mem.2 repeated)]
        exact .stop ⟨v, .argument q, n, stands, argumentStands, argumentNamed,
          (seen_iff n).1 repeated⟩ (.repetition stands named position argumentNamed)
      · rw [if_neg fun h => repeated (List.contains_iff_mem.1 h)]
        refine .pass ⟨?_, ?_⟩ (rest n s₁ argumentNamed later)
        · rintro ⟨v', a', n', stands', argumentStands', argumentNamed', among⟩
          rw [stands] at stands'
          cases stands'
          rw [argumentStands] at argumentStands'
          cases argumentStands'
          rw [argumentNamed] at argumentNamed'
          cases argumentNamed'
          exact repeated ((seen_iff n).2 among)
        · intro text asked
          cases asked

/-- What follows once an argument has a name of its own. -/
def afterName (supply : Supplier) (directive : String) (seen : List String) (q : Ref .argument)
    (rest : List Value) (n : String) : Action Unit := do
  let ok ← Types.isInput supply (← Arguments.type supply q)
  let shown ← Display.label supply (← Arguments.type supply q)
  unless ok do throw (.notInputType n directive shown)
  checkArguments supply directive (n :: seen) rest

theorem checkArguments_argument (supply : Supplier) (directive : String) (seen : List String)
    (q : Ref .argument) (rest : List Value) :
    checkArguments supply directive seen (.argument q :: rest) = (do
      let _ ← Display.label supply (.argument q)
      let n := Directives.nameText (← argumentName supply q)
      if seen.contains n then throw (.duplicateArgument n directive)
      afterName supply directive seen q rest n) := by
  simp only [checkArguments, afterName]

/-- The checks of one argument. The names that were seen are those of the arguments before it. -/
theorem Scanned.argument {before rest : List Value} {seen : List String}
    (stands : vs[i]? = some v) (named : directiveName? s v = some directive)
    (split : argsOf s v = before ++ a :: rest)
    (seen_iff : ∀ name, name ∈ seen ↔ name ∈ before.filterMap (argumentName? s))
    (live : ∀ q, a = .argument q → q.index < s.arguments.size)
    (resolvable : ∀ q, a = .argument q → ∃ isScalar, Resolves s q isScalar)
    (later : s.Leads s₁)
    (next : ∀ name s₂, argumentName? s a = some name → s.Leads s₂ →
      Scanned s vs cs (checkArguments Deferred.supplier directive (name :: seen) rest s₂)) :
    Scanned s vs (.argument i before.length :: .grammar i before.length ::
        .repetition i before.length :: .input i before.length :: cs)
      (checkArguments Deferred.supplier directive seen (a :: rest) s₁) := by
  have argumentStands : (argsOf s v)[before.length]? = some a := by simp [split]
  have position : argumentAt? s vs i before.length = some a := by
    simp [argumentAt?, stands, argumentStands]
  have asked : text? s vs (.argument i before.length) =
      some (Display.label Deferred.supplier a) := by
    simp only [text?, position, Option.map_some]
  cases text : Display.label Deferred.supplier a s₁ with
  | error f s₂ =>
    simp only [checkArguments]
    rw [Action.bind_of_error text]
    exact .fail ⟨_, f, asked, ⟨s₁, s₂, later, text⟩, rfl⟩
  | ok shown s₂ =>
    have later₂ : s.Leads s₂ := later.trans ((leads.label [] a).of_ok text)
    have made : Shown s vs (.argument i before.length) shown := ⟨_, asked, s₁, s₂, later, text⟩
    cases a with
    | argument q =>
      rw [checkArguments_argument, Action.bind_of_ok text]
      refine .pass ⟨?_, ?_⟩ ?_
      · rintro ⟨a', position', notArgument⟩
        rw [position] at position'
        cases position'
        cases notArgument
      · intro text' asked'
        rw [asked] at asked'
        cases asked'
        exact ⟨shown, s₁, s₂, later, text⟩
      · obtain ⟨name, present⟩ := name_of_label text
        rw [(later.extends.argument (live q rfl)).name] at present
        refine .name _ stands named argumentStands ?_ (live q rfl) present later₂ ?_
        · simpa [split] using seen_iff
        · intro n s₃ argumentNamed later₃
          refine .type stands named position argumentNamed (resolvable q rfl) later₃ ?_
          exact fun s₄ later₄ => next n s₄ argumentNamed later₄
    | _ =>
      simp only [checkArguments]
      rw [Action.bind_of_ok text]
      exact .stop ⟨_, position, rfl⟩ (.argument stands named made)

/-- The loop over the arguments of a directive. What was done of them are the arguments before, and
the names that were seen are theirs. -/
theorem Scanned.arguments {before rest : List Value} {seen : List String}
    (stands : vs[i]? = some v) (named : directiveName? s v = some directive)
    (split : argsOf s v = before ++ rest)
    (seen_iff : ∀ name, name ∈ seen ↔ name ∈ before.filterMap (argumentName? s))
    (live : ∀ q, .argument q ∈ argsOf s v → q.index < s.arguments.size)
    (resolvable : ∀ q, .argument q ∈ argsOf s v → ∃ isScalar, Resolves s q isScalar)
    (later : s.Leads s₁) :
    Scanned s vs (argumentChecks i before.length rest)
      (checkArguments Deferred.supplier directive seen rest s₁) := by
  induction rest generalizing before seen s₁ with
  | nil => exact .done
  | cons a rest ih =>
    have among : a ∈ argsOf s v := by simp [split]
    refine .argument stands named split seen_iff (fun q h => live q (h ▸ among))
      (fun q h => resolvable q (h ▸ among)) later fun name s₂ argumentNamed later₂ => ?_
    have done : argsOf s v = (before ++ [a]) ++ rest := by simp [split]
    have seen_iff' (n : String) :
        n ∈ name :: seen ↔ n ∈ (before ++ [a]).filterMap (argumentName? s) := by
      simp [argumentNamed, seen_iff n, or_comm]
    simpa using ih done seen_iff' later₂

end

/-! ### Directives -/

/-- A warning never fails. -/
theorem warnUnknown_returns (supply : Supplier) (name : String) (v : Value) (s : Session) :
    ∃ s', warnUnknown supply name v s = .ok () s' := by
  simp only [warnUnknown]
  cases run : (do Action.note (.unknownLocation (← Display.literal supply v) name)
      : Action Unit) s with
  | ok u s' => exact ⟨s', Action.tryCatch_of_ok run⟩
  | error f s' => exact ⟨s', Action.tryCatch_of_error run⟩

theorem warnLocations_returns (supply : Supplier) (name : String) (vs : List Value)
    (s : Session) : ∃ s', warnLocations supply name vs s = .ok () s' := by
  induction vs generalizing s with
  | nil => exact ⟨s, rfl⟩
  | cons v vs ih =>
    simp only [warnLocations]
    split
    · exact ih s
    · obtain ⟨s', warned⟩ := warnUnknown_returns supply name v s
      rw [Action.bind_of_ok warned]
      exact ih s'

theorem checkLocations_returns (supply : Supplier) (name : String) (vs : List Value)
    (s : Session) : ∃ s', checkLocations supply name vs s = .ok () s' := by
  simp only [checkLocations]
  split
  · exact warnLocations_returns supply name vs _
  · exact warnLocations_returns supply name vs s

/-- What follows once a directive has a name of its own. -/
def afterDirective (supply : Supplier) (d : Directive) (seen : List String) (rest : List Value)
    (name : String) : Action Unit := do
  checkLocations supply name d.locations.items
  checkArguments supply name [] d.args.items
  checkDirectives supply (name :: seen) rest

theorem checkDirectives_directive (supply : Supplier) (seen : List String) (r : Ref .directive)
    (rest : List Value) :
    checkDirectives supply seen (.directive r :: rest) = (do
      let _ ← Display.literal supply (.directive r)
      let d := (← get).directive r
      let name := Directives.nameText d.name
      if seen.contains name then throw (.duplicateDirective name)
      afterDirective supply d seen rest name) := by
  simp only [checkDirectives, afterDirective]

section

variable {cs : List Check} {v : Value} {s₁ : Session}

/-- The checks of one entry. The names that were seen are those of the directives before it. -/
theorem Scanned.directive {before rest : List Value} {seen : List String}
    (split : vs = before ++ v :: rest)
    (seen_iff : ∀ name, name ∈ seen ↔ name ∈ before.filterMap (directiveName? s))
    (live : Live s vs) (resolvable : Resolvable s vs) (later : s.Leads s₁)
    (next : ∀ name s₂, directiveName? s v = some name → s.Leads s₂ →
      Scanned s vs cs (checkDirectives Deferred.supplier (name :: seen) rest s₂)) :
    Scanned s vs (.entry before.length :: .name before.length ::
        (argumentChecks before.length 0 (argsOf s v) ++ cs))
      (checkDirectives Deferred.supplier seen (v :: rest) s₁) := by
  have stands : vs[before.length]? = some v := by simp [split]
  have among : v ∈ vs := by simp [split]
  have asked : text? s vs (.entry before.length) = some (Display.literal Deferred.supplier v) := by
    simp only [text?, stands, Option.map_some]
  cases text : Display.literal Deferred.supplier v s₁ with
  | error f s₂ =>
    simp only [checkDirectives]
    rw [Action.bind_of_error text]
    exact .fail ⟨_, f, asked, ⟨s₁, s₂, later, text⟩, rfl⟩
  | ok shown s₂ =>
    have later₂ : s.Leads s₂ := later.trans ((leads.literal [] v).of_ok text)
    have made : Shown s vs (.entry before.length) shown := ⟨_, asked, s₁, s₂, later, text⟩
    cases v with
    | directive r =>
      rw [checkDirectives_directive, Action.bind_of_ok text, Action.get_bind]
      refine .pass ⟨?_, ?_⟩ ?_
      · rintro ⟨v', stands', notDirective⟩
        rw [stands] at stands'
        cases stands'
        cases notDirective
      · intro text' asked'
        rw [asked] at asked'
        cases asked'
        exact ⟨shown, s₁, s₂, later, text⟩
      · rw [later₂.extends.directive (live.directive among)]
        obtain ⟨n, spelt⟩ : ∃ n, (s.directive r).name.text? = some n := by
          have named := (s.directive r).named
          cases spelt : (s.directive r).name.text? with
          | some n => exact ⟨n, rfl⟩
          | none => simp [Value.isName, spelt] at named
        have named : directiveName? s (.directive r) = some n := spelt
        have nameText : Directives.nameText (s.directive r).name = n := by
          simp [Directives.nameText, spelt]
        simp only [nameText]
        by_cases repeated : n ∈ seen
        · rw [if_pos (List.contains_iff_mem.2 repeated)]
          refine .stop ⟨_, n, stands, named, ?_⟩ (.name stands named)
          simpa [split] using (seen_iff n).1 repeated
        · rw [if_neg fun h => repeated (List.contains_iff_mem.1 h)]
          refine .pass ⟨?_, ?_⟩ ?_
          · rintro ⟨v', n', stands', named', earlier⟩
            rw [stands] at stands'
            cases stands'
            rw [named] at named'
            cases named'
            refine repeated ((seen_iff n).2 ?_)
            simpa [split] using earlier
          · intro text asked
            cases asked
          · obtain ⟨s₃, warned⟩ := checkLocations_returns Deferred.supplier n
              (s.directive r).locations.items s₂
            have later₃ : s.Leads s₃ :=
              later₂.trans ((leads.checkLocations [] n _).of_ok warned)
            simp only [afterDirective]
            rw [Action.bind_of_ok warned]
            have scan : Scanned s vs
                (argumentChecks before.length ([] : List Value).length (s.directive r).args.items)
                (checkArguments Deferred.supplier n [] (s.directive r).args.items s₃) :=
              .arguments stands named (List.nil_append _).symm (by simp)
                (fun q => live.argument among) (resolvable _ among) later₃
            refine scan.append fun s₄ run => ?_
            exact next n s₄ named (later₃.trans ((leads.checkArguments [] n [] _).of_ok run))
    | _ =>
      simp only [checkDirectives]
      rw [Action.bind_of_ok text]
      exact .stop ⟨_, stands, rfl⟩ (.entry made)

/-- The loop over the entries of a collection. -/
theorem Scanned.directives {before rest : List Value} {seen : List String}
    (split : vs = before ++ rest)
    (seen_iff : ∀ name, name ∈ seen ↔ name ∈ before.filterMap (directiveName? s))
    (live : Live s vs) (resolvable : Resolvable s vs) (later : s.Leads s₁) :
    Scanned s vs (checksFrom s before.length rest)
      (checkDirectives Deferred.supplier seen rest s₁) := by
  induction rest generalizing before seen s₁ with
  | nil => exact .done
  | cons v rest ih =>
    refine .directive split seen_iff live resolvable later fun name s₂ named later₂ => ?_
    have done : vs = (before ++ [v]) ++ rest := by simp [split]
    have seen_iff' (n : String) :
        n ∈ name :: seen ↔ n ∈ (before ++ [v]).filterMap (directiveName? s) := by
      simp [named, seen_iff n, or_comm]
    simpa using ih done seen_iff' later₂

end

/-! ### What a scan comes to -/

namespace Scanned

variable {cs : List Check} {s' : Session} {f : Fault}

theorem of_ok (h : Scanned s vs cs (.ok () s')) : ∀ c ∈ cs, Passed s vs c := by
  generalize result : (EStateM.Result.ok () s' : EStateM.Result Fault Session Unit) = r at h
  induction h with
  | done => simp
  | pass passed _ ih =>
    intro c hc
    rcases List.mem_cons.1 hc with rfl | hc
    · exact passed
    · exact ih result c hc
  | stop | fail => cases result

/-- A fault is that of the first check that did not pass. -/
theorem of_error (h : Scanned s vs cs (.error f s')) :
    ∃ before c rest, cs = before ++ c :: rest ∧ (∀ b ∈ before, Passed s vs b) ∧
      (Violated s vs c ∧ Reports s vs c f ∨ Fails s vs c f) := by
  generalize result : (EStateM.Result.error f s' : EStateM.Result Fault Session Unit) = r at h
  induction h with
  | done => cases result
  | @pass c cs result' passed _ ih =>
    obtain ⟨before, c', rest, split, earlier, verdict⟩ := ih result
    refine ⟨c :: before, c', rest, by simp [split], ?_, verdict⟩
    intro b hb
    rcases List.mem_cons.1 hb with rfl | hb
    · exact passed
    · exact earlier b hb
  | @stop c cs f' s'' violated reports =>
    cases result
    exact ⟨[], c, cs, rfl, by simp, .inl ⟨violated, reports⟩⟩
  | @fail c cs f' s'' fails =>
    cases result
    exact ⟨[], c, cs, rfl, by simp, .inr fails⟩

end Scanned

end DirectiveSchema.Validation

import DirectiveSchema.Proofs.Extension

/-!
What a validation checks. The checks of a collection are listed in the order in which they are made:
directive by directive, first its kind and its name; then argument by argument, its kind, its name
and its type. A collection is valid when none of them is violated. A check may ask for a text before
it is decided, and reports a fault of its own when it is violated.
-/
namespace DirectiveSchema.Validation

/-- A check, by the positions of a directive and of one of its arguments. -/
inductive Check where
  /-- The entry is a directive. -/
  | entry (i : Nat)
  /-- No earlier directive has the name. -/
  | name (i : Nat)
  /-- What the directive has as an argument is one. -/
  | argument (i j : Nat)
  /-- The argument has a name of the grammar. -/
  | grammar (i j : Nat)
  /-- No earlier argument of the directive has the name. -/
  | repetition (i j : Nat)
  /-- The argument is of an input type. -/
  | input (i j : Nat)
deriving DecidableEq, Repr

namespace Check

/-- A fault that was met while a check was made, as it leaves the check. -/
def surface : Check → Fault → Fault
  | grammar _ _, f => if f.kind.isA .invalidName then .invalidArgumentName f else f
  | _, f => f

def isGrammar : Check → Bool
  | grammar _ _ => true
  | _ => false

end Check

variable (s : Session)

/-- What a directive has as its arguments. -/
def argsOf : Value → List Value
  | .directive r => (s.directive r).args.items
  | _ => []

def directiveName? : Value → Option String
  | .directive r => (s.directive r).name.text?
  | _ => none

/-- The current name of an argument, if it is a text. -/
def argumentName? : Value → Option String
  | .argument q => (s.argument q).name.bind Value.text?
  | _ => none

/-- Whatever was observed before, the type of an argument resolves to a finite chain of wrappers,
and the chain ends in a scalar or it does not. -/
def Resolves (q : Ref .argument) (isScalar : Bool) : Prop :=
  ∀ s', s.Leads s' → ∃ t s'',
    (Arguments.type Deferred.supplier q >>= Types.unwrap Deferred.supplier) s' = .ok t s'' ∧
      t.isScalar = isScalar

/-- The directives of a collection and their arguments are in the session. -/
structure Live (vs : List Value) : Prop where
  directive {r : Ref .directive} : .directive r ∈ vs → r.index < s.directives.size
  argument {v : Value} {q : Ref .argument} :
    v ∈ vs → .argument q ∈ argsOf s v → q.index < s.arguments.size

/-- The types of all arguments resolve. -/
def Resolvable (vs : List Value) : Prop :=
  ∀ v ∈ vs, ∀ q, .argument q ∈ argsOf s v → ∃ isScalar, Resolves s q isScalar

/-- The arguments of a directive are arguments with valid names of their own and input types. -/
structure ValidArguments (as : List Value) : Prop where
  arguments : ∀ a ∈ as, a.isArgument = true
  named : ∀ q, .argument q ∈ as → ∃ name, (s.argument q).name = some name ∧ name.isName = true
  distinct : (as.filterMap (argumentName? s)).Nodup
  input : ∀ q, .argument q ∈ as → Resolves s q true

/-- The entries of a collection are directives with names of their own and valid arguments. -/
structure Valid (vs : List Value) : Prop where
  directives : ∀ v ∈ vs, v.isDirective = true
  distinct : (vs.filterMap (directiveName? s)).Nodup
  arguments : ∀ v ∈ vs, ValidArguments s (argsOf s v)

/-! ### The order of the checks -/

/-- The checks of the arguments of the directive at a position, from one argument on. -/
def argumentChecks (i j : Nat) : List Value → List Check
  | [] => []
  | _ :: as =>
    .argument i j :: .grammar i j :: .repetition i j :: .input i j :: argumentChecks i (j + 1) as

/-- The checks of a collection from one entry on. -/
def checksFrom (i : Nat) : List Value → List Check
  | [] => []
  | v :: vs => .entry i :: .name i :: (argumentChecks i 0 (argsOf s v) ++ checksFrom (i + 1) vs)

/-- The checks of a collection in the order in which they are made. -/
def checks (vs : List Value) : List Check := checksFrom s 0 vs

/-! ### Violations and reports -/

variable (vs : List Value)

/-- What stands at the position of an argument. -/
def argumentAt? (i j : Nat) : Option Value := do (argsOf s (← vs[i]?))[j]?

def Violated : Check → Prop
  | .entry i => ∃ v, vs[i]? = some v ∧ v.isDirective = false
  | .name i => ∃ v name, vs[i]? = some v ∧ directiveName? s v = some name ∧
      name ∈ (vs.take i).filterMap (directiveName? s)
  | .argument i j => ∃ a, argumentAt? s vs i j = some a ∧ a.isArgument = false
  | .grammar i j => ∃ q, argumentAt? s vs i j = some (.argument q) ∧
      ∀ name, (s.argument q).name = some name → name.isName = false
  | .repetition i j => ∃ v a name, vs[i]? = some v ∧ (argsOf s v)[j]? = some a ∧
      argumentName? s a = some name ∧ name ∈ ((argsOf s v).take j).filterMap (argumentName? s)
  | .input i j => ∃ q, argumentAt? s vs i j = some (.argument q) ∧ Resolves s q false

/-- The text that a check asks for. An invalid name is written only once it is known to be one. -/
def text? : Check → Option (Action String)
  | .entry i => vs[i]?.map (Display.literal Deferred.supplier)
  | .argument i j => (argumentAt? s vs i j).map (Display.label Deferred.supplier)
  | .grammar i j =>
    match argumentAt? s vs i j with
    | some (.argument q) => (s.argument q).name.bind fun name =>
      if name.isName then none else some (Display.label Deferred.supplier name)
    | _ => none
  | .input i j =>
    match argumentAt? s vs i j with
    | some (.argument q) => some (Arguments.type Deferred.supplier q >>=
        Display.label Deferred.supplier)
    | _ => none
  | .name _ | .repetition _ _ => none

/-- The text of a check was made. -/
def Shown (c : Check) (shown : String) : Prop :=
  ∃ text, text? s vs c = some text ∧ Yields s text shown

/-- The fault that a violated check reports. -/
inductive Reports : Check → Fault → Prop where
  | entry {i : Nat} {shown : String} :
      Shown s vs (.entry i) shown → Reports (.entry i) (.notDirective shown)
  | name {i : Nat} {v : Value} {name : String} :
      vs[i]? = some v → directiveName? s v = some name →
        Reports (.name i) (.duplicateDirective name)
  | argument {i j : Nat} {v : Value} {directive shown : String} :
      vs[i]? = some v → directiveName? s v = some directive →
        Shown s vs (.argument i j) shown → Reports (.argument i j) (.notArgument directive shown)
  | grammar {i j : Nat} {q : Ref .argument} {name : Value} {shown : String} :
      argumentAt? s vs i j = some (.argument q) → (s.argument q).name = some name →
        Shown s vs (.grammar i j) shown →
          Reports (.grammar i j) (.invalidArgumentName (.invalidName shown name))
  | repetition {i j : Nat} {v a : Value} {directive name : String} :
      vs[i]? = some v → directiveName? s v = some directive → argumentAt? s vs i j = some a →
        argumentName? s a = some name →
          Reports (.repetition i j) (.duplicateArgument name directive)
  | input {i j : Nat} {v a : Value} {directive name shown : String} :
      vs[i]? = some v → directiveName? s v = some directive → argumentAt? s vs i j = some a →
        argumentName? s a = some name → Shown s vs (.input i j) shown →
          Reports (.input i j) (.notInputType name directive shown)

/-- The fault that a check ends in when its text cannot be made. -/
def Fails (c : Check) (f : Fault) : Prop :=
  ∃ text g, text? s vs c = some text ∧ Faults s text g ∧ f = c.surface g

/-- A check that is reached: none before it is violated. -/
def Reached (c : Check) : Prop :=
  ∃ before rest, checks s vs = before ++ c :: rest ∧ ∀ b ∈ before, ¬Violated s vs b

/-- The first violated check. -/
def First (c : Check) : Prop := Reached s vs c ∧ Violated s vs c

variable {s vs}

theorem Reports.kind_eq {c : Check} {f : Fault} (h : Reports s vs c f) : f.kind = .schema := by
  cases h <;> rfl

/-- Only an invalid name is a cause. -/
theorem Reports.cause_eq {c : Check} {f : Fault} (h : Reports s vs c f) :
    f.cause?.map Fault.kind = if c.isGrammar then some .invalidName else none := by
  cases h <;> rfl

/-! ### Validity as the absence of violations -/

/-- What is picked from a list is without repetition when nothing is picked that was picked from
what lies before it. -/
theorem nodup_filterMap_iff {α β : Type} {f : α → Option β} {l : List α} :
    (l.filterMap f).Nodup ↔
      ∀ i a b, l[i]? = some a → f a = some b → b ∉ (l.take i).filterMap f := by
  rw [List.Nodup, List.pairwise_filterMap, List.pairwise_iff_getElem]
  constructor
  · intro h i a b stands picked earlier
    obtain ⟨a', among, picked'⟩ := List.mem_filterMap.1 earlier
    obtain ⟨k, hk, rfl⟩ := List.mem_take_iff_getElem.1 among
    obtain ⟨hi, rfl⟩ := List.getElem?_eq_some_iff.1 stands
    exact h k i (by omega) hi (by omega) b picked' b picked rfl
  · intro h i j hi hj hij b picked b' picked' same
    subst same
    refine h j l[j] b (List.getElem?_eq_getElem hj) picked' ?_
    refine List.mem_filterMap.2 ⟨l[i], ?_, picked⟩
    exact List.mem_take_iff_getElem.2 ⟨i, by omega, rfl⟩

theorem argumentAt?_eq_some {i j : Nat} {a : Value} :
    argumentAt? s vs i j = some a ↔ ∃ v, vs[i]? = some v ∧ (argsOf s v)[j]? = some a := by
  simp [argumentAt?, Option.bind_eq_some_iff]

/-- Every argument is checked. -/
theorem mem_argumentChecks {as : List Value} {a : Value} {i j k : Nat} (h : as[k]? = some a) :
    .argument i (j + k) ∈ argumentChecks i j as ∧ .grammar i (j + k) ∈ argumentChecks i j as ∧
      .repetition i (j + k) ∈ argumentChecks i j as ∧ .input i (j + k) ∈ argumentChecks i j as := by
  induction as generalizing j k with
  | nil => cases h
  | cons b as ih =>
    cases k with
    | zero => simp [argumentChecks]
    | succ k =>
      have rest := ih (j := j + 1) h
      have next : j + (k + 1) = j + 1 + k := by omega
      simp [argumentChecks, next, rest]

/-- Every entry is checked, and so are its arguments. -/
theorem mem_checksFrom {v : Value} {i k : Nat} (h : vs[k]? = some v) :
    .entry (i + k) ∈ checksFrom s i vs ∧ .name (i + k) ∈ checksFrom s i vs ∧
      ∀ c ∈ argumentChecks (i + k) 0 (argsOf s v), c ∈ checksFrom s i vs := by
  induction vs generalizing i k with
  | nil => cases h
  | cons u vs ih =>
    cases k with
    | zero =>
      cases h
      refine ⟨by simp [checksFrom], by simp [checksFrom], fun c hc => ?_⟩
      simp [checksFrom, Nat.add_zero] at hc ⊢
      exact .inr (.inr (.inl hc))
    | succ k =>
      have next : i + (k + 1) = i + 1 + k := by omega
      obtain ⟨entry, name, arguments⟩ := ih (i := i + 1) h
      rw [next]
      refine ⟨by simp [checksFrom, entry], by simp [checksFrom, name], fun c hc => ?_⟩
      simp [checksFrom, arguments c hc]

/-- Nothing is violated that is not checked. -/
theorem mem_checks_of_violated {c : Check} (h : Violated s vs c) : c ∈ checks s vs := by
  have atArgument {i j : Nat} {a : Value} (position : argumentAt? s vs i j = some a) :
      ∀ c ∈ [Check.argument i j, .grammar i j, .repetition i j, .input i j], c ∈ checks s vs := by
    intro c hc
    obtain ⟨v, stands, argumentStands⟩ := argumentAt?_eq_some.1 position
    have among := (mem_checksFrom (s := s) (i := 0) stands).2.2
    have checked := mem_argumentChecks (i := 0 + i) (j := 0) argumentStands
    simp only [Nat.zero_add] at among checked
    obtain ⟨argument, grammar, repetition, input⟩ := checked
    simp only [List.mem_cons, List.not_mem_nil, or_false] at hc
    rcases hc with rfl | rfl | rfl | rfl
    · exact among _ argument
    · exact among _ grammar
    · exact among _ repetition
    · exact among _ input
  cases c with
  | entry i =>
    obtain ⟨v, stands, -⟩ := h
    simpa [checks] using (mem_checksFrom (s := s) (i := 0) stands).1
  | name i =>
    obtain ⟨v, name, stands, -⟩ := h
    simpa [checks] using (mem_checksFrom (s := s) (i := 0) stands).2.1
  | argument i j =>
    obtain ⟨a, position, -⟩ := h
    exact atArgument position _ (by simp)
  | grammar i j =>
    obtain ⟨q, position, -⟩ := h
    exact atArgument position _ (by simp)
  | repetition i j =>
    obtain ⟨v, a, name, stands, argumentStands, -⟩ := h
    exact atArgument (argumentAt?_eq_some.2 ⟨v, stands, argumentStands⟩) _ (by simp)
  | input i j =>
    obtain ⟨q, position, -⟩ := h
    exact atArgument position _ (by simp)

/-- A type does not resolve both ways. -/
theorem Resolves.unique {q : Ref .argument} {b b' : Bool} (h : Resolves s q b)
    (h' : Resolves s q b') : b = b' := by
  obtain ⟨t, s', run, rfl⟩ := h s .refl
  obtain ⟨t', s'', run', rfl⟩ := h' s .refl
  rw [run] at run'
  cases run'
  rfl

theorem Valid.not_violated (h : Valid s vs) (c : Check) : ¬Violated s vs c := by
  have valid {i j : Nat} {a : Value} (position : argumentAt? s vs i j = some a) :
      ∃ as, ValidArguments s as ∧ a ∈ as := by
    obtain ⟨v, stands, argumentStands⟩ := argumentAt?_eq_some.1 position
    exact ⟨_, h.arguments v (List.mem_of_getElem? stands), List.mem_of_getElem? argumentStands⟩
  intro violated
  cases c with
  | entry i =>
    obtain ⟨v, stands, notDirective⟩ := violated
    rw [h.directives v (List.mem_of_getElem? stands)] at notDirective
    cases notDirective
  | name i =>
    obtain ⟨v, name, stands, named, earlier⟩ := violated
    exact nodup_filterMap_iff.1 h.distinct i v name stands named earlier
  | argument i j =>
    obtain ⟨a, position, notArgument⟩ := violated
    obtain ⟨as, valid, among⟩ := valid position
    rw [valid.arguments a among] at notArgument
    cases notArgument
  | grammar i j =>
    obtain ⟨q, position, invalid⟩ := violated
    obtain ⟨as, valid, among⟩ := valid position
    obtain ⟨name, named, isName⟩ := valid.named q among
    rw [invalid name named] at isName
    cases isName
  | repetition i j =>
    obtain ⟨v, a, name, stands, argumentStands, named, earlier⟩ := violated
    have valid := h.arguments v (List.mem_of_getElem? stands)
    exact nodup_filterMap_iff.1 valid.distinct j a name argumentStands named earlier
  | input i j =>
    obtain ⟨q, position, refuses⟩ := violated
    obtain ⟨as, valid, among⟩ := valid position
    cases (valid.input q among).unique refuses

/-- A collection is valid when none of its checks is violated. -/
theorem valid_iff (resolvable : Resolvable s vs) :
    Valid s vs ↔ ∀ c ∈ checks s vs, ¬Violated s vs c := by
  refine ⟨fun h c _ => h.not_violated c, fun h => ?_⟩
  have kept {c : Check} : ¬Violated s vs c := fun violated => h c (mem_checks_of_violated violated)
      violated
  refine ⟨?_, ?_, ?_⟩
  · intro v among
    obtain ⟨i, stands⟩ := List.mem_iff_getElem?.1 among
    cases kind : v.isDirective with
    | true => rfl
    | false => exact absurd ⟨v, stands, kind⟩ (kept (c := .entry i))
  · refine nodup_filterMap_iff.2 fun i v name stands named earlier => ?_
    exact kept (c := .name i) ⟨v, name, stands, named, earlier⟩
  · intro v among
    obtain ⟨i, stands⟩ := List.mem_iff_getElem?.1 among
    have position {a : Value} (h : a ∈ argsOf s v) : ∃ j, argumentAt? s vs i j = some a := by
      obtain ⟨j, argumentStands⟩ := List.mem_iff_getElem?.1 h
      exact ⟨j, argumentAt?_eq_some.2 ⟨v, stands, argumentStands⟩⟩
    refine ⟨?_, ?_, ?_, ?_⟩
    · intro a amongArguments
      obtain ⟨j, position⟩ := position amongArguments
      cases kind : a.isArgument with
      | true => rfl
      | false => exact absurd ⟨a, position, kind⟩ (kept (c := .argument i j))
    · intro q amongArguments
      obtain ⟨j, position⟩ := position amongArguments
      refine Classical.byContradiction fun unnamed => ?_
      refine kept (c := .grammar i j) ⟨q, position, fun name named => ?_⟩
      cases valid : name.isName with
      | false => rfl
      | true => exact absurd ⟨name, named, valid⟩ unnamed
    · refine nodup_filterMap_iff.2 fun j a name argumentStands named earlier => ?_
      exact kept (c := .repetition i j) ⟨v, a, name, stands, argumentStands, named, earlier⟩
    · intro q amongArguments
      obtain ⟨j, position⟩ := position amongArguments
      obtain ⟨isScalar, resolves⟩ := resolvable v among q amongArguments
      cases isScalar with
      | true => exact resolves
      | false => exact absurd ⟨q, position, resolves⟩ (kept (c := .input i j))

end DirectiveSchema.Validation

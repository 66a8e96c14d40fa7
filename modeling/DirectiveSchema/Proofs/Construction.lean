import DirectiveSchema.Proofs.Immutability
import DirectiveSchema.Proofs.Verdict

/-!
Construction of directives. The fields are checked in an order, and the first defect decides: a
missing name, a name that is not spelt as one, locations that are not listed, arguments that have
no elements. What has none of them is built of just what was given, and noted once.
-/
namespace DirectiveSchema

/-! ### Names -/

namespace Name

/-- A letter or an underscore, one of ASCII. -/
def Opens (c : Char) : Prop := c = '_' ∨ ('a' ≤ c ∧ c ≤ 'z') ∨ ('A' ≤ c ∧ c ≤ 'Z')

/-- What opens a name, or a digit of ASCII. -/
def Continues (c : Char) : Prop := Opens c ∨ ('0' ≤ c ∧ c ≤ '9')

theorem isStart_iff (c : Char) : isStart c = true ↔ Opens c := by
  have capital : c.isUpper = true ↔ 'A' ≤ c ∧ c ≤ 'Z' := decide_eq_true_iff
  have small : c.isLower = true ↔ 'a' ≤ c ∧ c ≤ 'z' := by
    show (decide _ && decide _) = true ↔ _
    rw [Bool.and_eq_true, decide_eq_true_eq, decide_eq_true_eq]
    exact Iff.rfl
  have letter : c.isAlpha = true ↔ ('a' ≤ c ∧ c ≤ 'z') ∨ ('A' ≤ c ∧ c ≤ 'Z') := by
    show (c.isUpper || c.isLower) = true ↔ _
    rw [Bool.or_eq_true, capital, small, or_comm]
  rw [isStart, Bool.or_eq_true, beq_iff_eq, letter, Opens]

theorem isPart_iff (c : Char) : isPart c = true ↔ Continues c := by
  simp only [isPart, Continues, Char.isDigit, Bool.or_eq_true, Bool.and_eq_true,
    decide_eq_true_eq, ge_iff_le, isStart_iff]
  exact Iff.rfl

/-- No letter or digit of another script is in a name, and no end of a line. -/
theorem Continues.ascii {c : Char} (h : Continues c) : c.toNat < 128 ∧ c ≠ '\n' := by
  have range {a b : Char} (low : '\n' < a) (high : b.toNat < 128) (inside : a ≤ c ∧ c ≤ b) :
      c.toNat < 128 ∧ c ≠ '\n' := by
    refine ⟨Nat.lt_of_le_of_lt inside.2 high, ?_⟩
    rintro rfl
    exact absurd low (Char.not_lt.2 inside.1)
  rcases h with (rfl | small | capital) | digit
  · decide
  · exact range (by decide) (by decide) small
  · exact range (by decide) (by decide) capital
  · exact range (by decide) (by decide) digit

end Name

/-- A text that is a name: a letter or an underscore, and then such characters and digits. -/
def Value.SpellsName (v : Value) : Prop :=
  ∃ text c cs, v.text? = some text ∧ text.toList = c :: cs ∧ Name.Opens c ∧
    ∀ d ∈ cs, Name.Continues d

theorem Value.isName_iff (v : Value) : v.isName = true ↔ v.SpellsName := by
  rw [isName, SpellsName]
  cases v.text? with
  | none => simp
  | some text =>
    simp only [Name.isValid_iff_spells, Option.some.injEq]
    constructor
    · intro spelt
      generalize characters : text.toList = cs at spelt
      obtain ⟨first, rest⟩ := spelt
      exact ⟨text, _, _, rfl, characters, (Name.isStart_iff _).1 first,
        fun d hd => (Name.isPart_iff d).1 (rest d hd)⟩
    · rintro ⟨_, c, cs, rfl, characters, first, rest⟩
      rw [characters]
      exact .intro ((Name.isStart_iff c).2 first) fun d hd => (Name.isPart_iff d).2 (rest d hd)

theorem Value.SpellsName.ascii {v : Value} (h : v.SpellsName) :
    ∃ text, v.text? = some text ∧ ∀ c ∈ text.toList, c.toNat < 128 ∧ c ≠ '\n' := by
  obtain ⟨text, c, cs, same, characters, first, rest⟩ := h
  refine ⟨text, same, fun d hd => ?_⟩
  rw [characters] at hd
  rcases List.mem_cons.1 hd with rfl | among
  · exact Name.Continues.ascii (.inl first)
  · exact (rest d among).ascii

/-! ### Truth and elements -/

/-- What does not count as true: null, what is zero, and what is empty. -/
inductive Session.Falsy (s : Session) : Value → Prop where
  | null : s.Falsy .null
  | bool : s.Falsy (.bool false)
  | int : s.Falsy (.int 0)
  | float {x : Binary64} : x.isZero = true → s.Falsy (.float x)
  | text : s.Falsy (.text "")
  | bytes : s.Falsy (.bytes [])
  | tuple (tag : Nat) : s.Falsy (.tuple tag [])
  | list {r : Ref .list} : s.list r = [] → s.Falsy (.list r)
  | set {r : Ref .set} : s.set r = [] → s.Falsy (.set r)
  | dict {r : Ref .dict} : s.dict r = [] → s.Falsy (.dict r)

theorem Container.isTruthy_decides (v : Value) (s : Session) :
    ∃ b, isTruthy v s = .ok b s ∧ (b = false ↔ s.Falsy v) := by
  have reads {b : Bool} {P : Prop} (iff : b = false ↔ P) :
      ∃ c, (pure b : Action Bool) s = .ok c s ∧ (c = false ↔ P) := ⟨b, rfl, iff⟩
  cases v with
  | null => exact reads ⟨fun _ => .null, fun _ => rfl⟩
  | bool b => exact reads ⟨fun h => h ▸ .bool, fun | .bool => rfl⟩
  | int n =>
    refine reads ⟨fun h => ?_, fun | .int => rfl⟩
    cases (by simpa using h : n = 0)
    exact .int
  | float x => exact reads ⟨fun h => .float (by simpa using h), fun | .float h => by simp [h]⟩
  | text t =>
    refine reads ⟨fun h => ?_, fun | .text => rfl⟩
    cases (by simpa using h : t = "")
    exact .text
  | bytes bs =>
    refine reads ⟨fun h => ?_, fun | .bytes => rfl⟩
    cases (by simpa using h : bs = [])
    exact .bytes
  | tuple tag items =>
    refine reads ⟨fun h => ?_, fun | .tuple _ => rfl⟩
    cases (by simpa using h : items = [])
    exact .tuple tag
  | list r => exact ⟨_, rfl, fun h => .list (by simpa using h), fun | .list h => by simp [h]⟩
  | set r => exact ⟨_, rfl, fun h => .set (by simpa using h), fun | .set h => by simp [h]⟩
  | dict r => exact ⟨_, rfl, fun h => .dict (by simpa using h), fun | .dict h => by simp [h]⟩
  | _ => exact reads ⟨fun h => (nomatch h), fun h => nomatch h⟩

/-- The data that have elements: texts, locations as texts, bytes and containers. -/
def Value.isIterable : Value → Bool
  | .text _ | .location _ | .bytes _ | .tuple _ _ | .config _ _ _ _ _ | .list _ | .set _
  | .dict _ => true
  | _ => false

theorem Container.elements_of_isIterable {v : Value} (h : v.isIterable = true) (s : Session) :
    ∃ xs, elements v s = .ok xs s := by
  cases v <;> first | exact ⟨_, rfl⟩ | cases h

theorem Container.elements_of_not_isIterable {v : Value} (h : v.isIterable = false)
    (s : Session) : elements v s = .error (.notIterable v.className) s := by
  cases v <;> first | rfl | cases h

namespace Directives

variable {s : Session} {supply : Supplier} {name locations args description : Value}

theorem isIterable_of_isLocationsList (h : isLocationsList locations = true) :
    locations.isIterable = true := by
  cases locations <;> first | rfl | cases h

/-! ### Defects, one after the other -/

theorem create_of_falsy (h : s.Falsy name) :
    create supply name locations args description s = .error .missingName s := by
  obtain ⟨b, truth, iff⟩ := Container.isTruthy_decides name s
  rw [iff.2 h] at truth
  simp only [create]
  rw [Action.bind_of_ok truth]
  rfl

theorem create_of_not_isName (truthy : ¬s.Falsy name) (unnamed : name.isName = false)
    {text : String} {t : Session} (shown : Display.label supply name s = .ok text t) :
    create supply name locations args description s = .error (.invalidName text name) t := by
  obtain ⟨b, truth, iff⟩ := Container.isTruthy_decides name s
  rw [(by simpa using mt iff.1 truthy : b = true)] at truth
  have refused : assertName supply name s = .error (.invalidName text name) t := by
    rw [assertName, dif_neg (by simp [unnamed]), Action.bind_of_ok shown]
    rfl
  simp only [create]
  rw [Action.bind_of_ok truth]
  exact Action.bind_of_error refused

theorem create_of_not_isLocationsList (named : name.isName = true)
    (unlisted : isLocationsList locations = false) :
    create supply name locations args description s = .error .missingLocations s := by
  simp only [create, unlisted]
  rw [Action.bind_of_ok (isTruthy_of_isName named s)]
  exact Action.bind_of_ok (assertName_of_isName named s)

theorem create_of_not_isIterable (named : name.isName = true)
    (listed : isLocationsList locations = true) (given : args ≠ .null)
    (uniterable : args.isIterable = false) :
    create supply name locations args description s =
      .error (.notIterable args.className) s := by
  have refused : argsOf args s = .error (.notIterable args.className) s := by
    have failed := Container.elements_of_not_isIterable uniterable s
    cases args with
    | null => exact absurd rfl given
    | tuple => cases uniterable
    | _ => exact Action.bind_of_error failed
  simp only [create, listed]
  rw [Action.bind_of_ok (isTruthy_of_isName named s)]
  refine (Action.bind_of_ok (assertName_of_isName named s)).trans ?_
  exact Action.bind_of_error refused

/-! ### Construction without a defect -/

theorem rowOf_of_isIterable {v : Value} (h : v.isIterable = true) (s : Session) :
    ∃ row tag, rowOf v s = .ok row { s with nextTag := tag } ∧ s.nextTag ≤ tag := by
  have made (xs : List Value) : ∃ row tag,
      Action.newRow xs s = .ok row { s with nextTag := tag } ∧ s.nextTag ≤ tag := by
    cases xs with
    | nil => exact ⟨_, s.nextTag, rfl, Nat.le_refl _⟩
    | cons => exact ⟨_, s.nextTag + 1, rfl, Nat.le_succ _⟩
  obtain ⟨xs, elements⟩ := Container.elements_of_isIterable h s
  obtain ⟨row, tag, run, le⟩ := made xs
  cases v with
  | tuple a items => exact ⟨⟨a, items⟩, s.nextTag, rfl, Nat.le_refl _⟩
  | _ => exact ⟨row, tag, (Action.bind_of_ok elements).trans run, le⟩

theorem argsOf_of_isIterable (h : args = .null ∨ args.isIterable = true) (s : Session) :
    ∃ row tag, argsOf args s = .ok row { s with nextTag := tag } ∧ s.nextTag ≤ tag := by
  rcases h with rfl | iterable
  · exact ⟨_, s.nextTag, rfl, Nat.le_refl _⟩
  · obtain ⟨row, tag, run, le⟩ := rowOf_of_isIterable iterable s
    refine ⟨row, tag, ?_, le⟩
    cases args with
    | null => cases iterable
    | _ => exact run

/-- The texts that are asked for while a directive is built can be made: that of its name, and then
those of its locations, whichever identities its tuples got. -/
structure Showable (s : Session) (name locations : Value) : Prop where
  name : ∃ text t, Display.label Deferred.supplier name s = .ok text t
  locations {xs : List Value} : isLocationsList locations = true →
    Container.elements locations s = .ok xs s → ∀ tag, s.nextTag ≤ tag →
      ∃ texts t, xs.mapM (Display.label Deferred.supplier) { s with nextTag := tag } =
        .ok texts t

/-- A directive is built of what was given, beside those that were there, and noted under its name
with the texts of its locations in their order. -/
structure Noted (s : Session) (name locations args description : Value) (r : Ref .directive)
    (t : Session) : Prop where
  built : Built s name locations args description (t.directive r)
  noted : ∃ text texts u tag, name.text? = some text ∧
    (t.directive r).locations.items.mapM (Display.label Deferred.supplier)
      { s with nextTag := tag } = .ok texts u ∧
    r.index = u.directives.size ∧ t = { u with
      directives := u.directives.add (t.directive r)
      journal := u.journal ++ [.created text texts] }

theorem create_of_sound (showable : Showable s name locations) (named : name.isName = true)
    (listed : isLocationsList locations = true)
    (given : args = .null ∨ args.isIterable = true) :
    ∃ r t, create Deferred.supplier name locations args description s = .ok r t ∧
      Noted s name locations args description r t := by
  obtain ⟨args', tag, argued, le⟩ := argsOf_of_isIterable given s
  obtain ⟨locations', tag', located, le'⟩ :=
    rowOf_of_isIterable (isIterable_of_isLocationsList listed) { s with nextTag := tag }
  have elements := elements_of_nextTag (rowOf_ok located).1
  obtain ⟨texts, u, written⟩ := showable.locations listed elements tag' (Nat.le_trans le le')
  obtain ⟨text, spelt, -⟩ := ((Value.isName_iff name).1 named).ascii
  have shown : Display.label Deferred.supplier name { s with nextTag := tag' } =
      .ok text { s with nextTag := tag' } := Validation.label_of_text spelt _
  have run : create Deferred.supplier name locations args description s = .ok
      ⟨u.directives.size⟩ { u with
        directives := u.directives.add ⟨name, named, description, locations', args'⟩
        journal := u.journal ++ [.created text texts] } := by
    simp only [create, listed]
    rw [Action.bind_of_ok (isTruthy_of_isName named s)]
    refine (Action.bind_of_ok (assertName_of_isName named s)).trans ?_
    refine (Action.bind_of_ok argued).trans ?_
    refine (Action.bind_of_ok located).trans ?_
    refine (Action.bind_of_ok shown).trans ?_
    exact Action.bind_of_ok written
  refine ⟨_, _, run, (create_ok run).2, text, texts, u, tag', spelt, ?_, rfl, ?_⟩
  · rw [Session.directive, Arena.get_add_self]
    exact written
  · rw [Session.directive, Arena.get_add_self]

/-! ### The first defect -/

/-- How an attempt to build a directive ends. -/
inductive Attempt (s : Session) (name locations args description : Value) :
    EStateM.Result Fault Session (Ref .directive) → Prop where
  | missingName : s.Falsy name → Attempt s name locations args description (.error .missingName s)
  | invalidName {text : String} {t : Session} : ¬s.Falsy name → ¬name.SpellsName →
      Attempt s name locations args description (.error (.invalidName text name) t)
  | missingLocations : ¬s.Falsy name → name.SpellsName → isLocationsList locations = false →
      Attempt s name locations args description (.error .missingLocations s)
  | notIterable : ¬s.Falsy name → name.SpellsName → isLocationsList locations = true →
      args ≠ .null → args.isIterable = false →
        Attempt s name locations args description (.error (.notIterable args.className) s)
  | built {r : Ref .directive} {t : Session} : ¬s.Falsy name → name.SpellsName →
      isLocationsList locations = true → (args = .null ∨ args.isIterable = true) →
        Noted s name locations args description r t →
          Attempt s name locations args description (.ok r t)

theorem create_attempt (showable : Showable s name locations) :
    Attempt s name locations args description
      (create Deferred.supplier name locations args description s) := by
  by_cases falsy : s.Falsy name
  · rw [create_of_falsy falsy]
    exact .missingName falsy
  cases named : name.isName with
  | false =>
    obtain ⟨text, t, shown⟩ := showable.name
    rw [create_of_not_isName falsy named shown]
    exact .invalidName falsy (by simp [← Value.isName_iff, named])
  | true =>
    have spelt := (Value.isName_iff name).1 named
    cases listed : isLocationsList locations with
    | false =>
      rw [create_of_not_isLocationsList named listed]
      exact .missingLocations falsy spelt listed
    | true =>
      by_cases given : args = .null ∨ args.isIterable = true
      · obtain ⟨r, t, run, noted⟩ := create_of_sound showable named listed given
        rw [run]
        exact .built falsy spelt listed given noted
      · obtain ⟨some, uniterable⟩ := not_or.1 given
        have uniterable : args.isIterable = false := by simpa using uniterable
        rw [create_of_not_isIterable named listed some uniterable]
        exact .notIterable falsy spelt listed some uniterable

/-- A fault of a kind. -/
def FailsBy {α : Type} (k : FaultKind) (result : EStateM.Result Fault Session α) : Prop :=
  ∃ f t, result = .error f t ∧ f.kind = k

/-- What decides how an attempt to build a directive ends. -/
structure Decided (s : Session) (name locations args description : Value)
    (result : EStateM.Result Fault Session (Ref .directive)) : Prop where
  missingName : FailsBy .missingName result ↔ s.Falsy name
  invalidName : FailsBy .invalidName result ↔ ¬s.Falsy name ∧ ¬name.SpellsName
  offender {f : Fault} {t : Session} : result = .error f t → f.kind = .invalidName →
    f.offendingName? = some name
  missingLocations : FailsBy .missingLocations result ↔
    ¬s.Falsy name ∧ name.SpellsName ∧ isLocationsList locations = false
  notIterable : FailsBy .type result ↔ ¬s.Falsy name ∧ name.SpellsName ∧
    isLocationsList locations = true ∧ args ≠ .null ∧ args.isIterable = false
  succeeds : (∃ r t, result = .ok r t) ↔ ¬s.Falsy name ∧ name.SpellsName ∧
    isLocationsList locations = true ∧ (args = .null ∨ args.isIterable = true)
  noted {r : Ref .directive} {t : Session} : result = .ok r t →
    Noted s name locations args description r t

theorem Attempt.decided {result : EStateM.Result Fault Session (Ref .directive)}
    (h : Attempt s name locations args description result) :
    Decided s name locations args description result := by
  cases h with
  | missingName falsy => constructor <;> simp [FailsBy, Fault.kind, falsy]
  | invalidName truthy unspelt =>
    constructor <;> simp [FailsBy, Fault.kind, Fault.offendingName?, truthy, unspelt]
  | missingLocations truthy spelt unlisted =>
    constructor <;> simp [FailsBy, Fault.kind, truthy, spelt, unlisted]
  | notIterable truthy spelt listed given uniterable =>
    constructor <;> simp [FailsBy, Fault.kind, truthy, spelt, listed, given, uniterable]
  | built truthy spelt listed given noted =>
    rcases given with rfl | iterable <;> constructor <;> simp_all [FailsBy]

/-- The first defect decides: a name that is missing, one that is not spelt as a name, locations
that are not listed, arguments that have no elements. Without a defect the directive is built and
noted. A configuration record makes no difference. -/
theorem first_defect_decides (s : Session) (name locations args description : Value) :
    (Showable s name locations → Decided s name locations args description
      (create Deferred.supplier name locations args description s)) ∧
    (name.SpellsName →
      ∃ text, name.text? = some text ∧ ∀ c ∈ text.toList, c.toNat < 128 ∧ c ≠ '\n') ∧
    ∀ tag, Access.fromConfig Deferred.supplier (.config tag name locations args description) =
      create Deferred.supplier name locations args description := by
  refine ⟨fun showable => ?_, Value.SpellsName.ascii, fun tag => rfl⟩
  exact (create_attempt showable).decided

/-- Locations of three kinds, one of them no location at all. -/
def oddLocations : List Value := [.location .field, .text "NOWHERE", .bool true]

theorem directive_with_odd_locations_is_decided :
    Showable BuiltIn.session (.text "_foo1") (.tuple 7 oddLocations) ∧
      Decided BuiltIn.session (.text "_foo1") (.tuple 7 oddLocations) .null (.int 3)
        (create Deferred.supplier (.text "_foo1") (.tuple 7 oddLocations) .null (.int 3)
          BuiltIn.session) ∧
      (Value.text "_foo1").SpellsName ∧
      (∃ text, (Value.text "_foo1").text? = some text ∧
        ∀ c ∈ text.toList, c.toNat < 128 ∧ c ≠ '\n') := by
  have showable : Showable BuiltIn.session (.text "_foo1") (.tuple 7 oddLocations) := by
    constructor
    · exact ⟨_, _, Validation.label_of_text rfl _⟩
    · rintro xs - ⟨⟩ tag -
      exact ⟨["FIELD", "NOWHERE", "True"], _, rfl⟩
  have spelt : (Value.text "_foo1").SpellsName := (Value.isName_iff _).1 (by decide)
  have decided := first_defect_decides BuiltIn.session (.text "_foo1") (.tuple 7 oddLocations) .null
    (.int 3)
  exact ⟨showable, decided.1 showable, spelt, decided.2.1 spelt⟩

end Directives

end DirectiveSchema

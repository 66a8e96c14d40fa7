import DirectiveSchema.Proofs.Attainment
import DirectiveSchema.Proofs.Flags

/-!
Deep copies of arguments. Null and the truth values are copied to themselves, and non-null types to
non-null types, whether they are copied now or were copied before. So a deep copy of an argument
tells what the argument tells.
-/
namespace DirectiveSchema

variable {s s' : Session} {v c : Value} {c₀ c₁ : Argument}

/-- A copy of a datum is null, a truth value or a non-null type if the datum is. -/
structure Value.Repeats (v c : Value) : Prop where
  constant : v.isConstant = true → c = v
  nonNull : c.isNonNull = v.isNonNull

/-- Copies of parts: there is one if there is a part. -/
structure RepeatsPart (o o' : Option Value) : Prop where
  isSome : o'.isSome = o.isSome
  constant {v : Value} : o = some v → v.isConstant = true → o' = some v

theorem Value.Repeats.refl (v : Value) : v.Repeats v := ⟨fun _ => rfl, rfl⟩

/-- A copy of an argument tells what the argument tells. A blank argument is over null. -/
theorem Argument.Flagged.copied (h : c₀.Flagged) (flag : RepeatsPart c₀.hasDefault c₁.hasDefault)
    (stored : RepeatsPart c₀.default c₁.default)
    (blank : c₀.source = .null → c₀.resolved = none → c₁.source = .null ∧ c₁.resolved = none) :
    c₁.Flagged := by
  cases h with
  | told told => exact .told (by rw [flag.constant told rfl, stored.isSome])
  | blank unset empty based unresolved =>
    obtain ⟨based', unresolved'⟩ := blank based unresolved
    have without {o o' : Option Value} (part : RepeatsPart o o') (empty : o = none) :
        o' = none := by
      rw [← Option.not_isSome_iff_eq_none, part.isSome, empty]
      exact Bool.false_ne_true
    exact .blank (without flag unset) (without stored empty) based' unresolved'

theorem Session.KeepsFlags.upholds {α : Type} {act : Action α} (h : Keeps Session.KeepsFlags act) :
    Keeps (Upholds Session.Flagged) act := fun s => (h s).flags

namespace DeepCopy

variable {memo memo' : Memo} {f : Value → Copying Value}

/-- What is remembered are copies. -/
def Memo.Repeats (memo : Memo) : Prop := ∀ e ∈ memo, e.1.Repeats e.2

theorem Memo.Repeats.cons (h : memo.Repeats) (copy : v.Repeats c) : Memo.Repeats ((v, c) :: memo) :=
  List.forall_mem_cons.2 ⟨copy, h⟩

theorem Memo.Repeats.find? (h : memo.Repeats) (found : memo.find? v = some c) : v.Repeats c := by
  obtain ⟨e, among, rfl⟩ := Option.map_eq_some_iff.1 found
  have copy := h e (List.mem_of_find?_eq_some among)
  have same : e.1.same v = true := by simpa using List.find?_some among
  refine ⟨fun constant => ?_, copy.nonNull.trans (Value.isNonNull_eq_of_same same)⟩
  obtain rfl := Value.eq_of_same_of_isConstant same constant
  exact copy.constant constant

/-- Whatever was copied before, the copy that is made of a datum repeats it. -/
def Duplicates (f : Value → Copying Value) : Prop :=
  ∀ v memo, memo.Repeats → Attains Session.Flagged memo (f v) fun memo' c =>
    memo'.Repeats ∧ v.Repeats c

open Attains Session.KeepsFlags

section

variable (parts : Duplicates f) (before : memo.Repeats)

include parts before

theorem duplicateAll (vs : List Value) :
    Attains Session.Flagged memo (vs.mapM f) fun memo' _ => memo'.Repeats := by
  induction vs generalizing memo with
  | nil => exact pure before
  | cons v vs ih =>
    rw [List.mapM_cons]
    exact (parts v memo before).bind fun _ c h => (ih h.1).bind fun _ cs h' => pure h'

theorem duplicatePart (o : Option Value) :
    Attains Session.Flagged memo (part f o) fun memo' o' => memo'.Repeats ∧ RepeatsPart o o' := by
  cases o with
  | none => exact pure ⟨before, rfl, fun same => by cases same⟩
  | some v =>
    refine (parts v memo before).bind fun _ c h => pure ⟨h.1, rfl, ?_⟩
    rintro _ ⟨⟩ constant
    exact congrArg some (h.2.constant constant)

theorem duplicateAttributes (as : Attributes) :
    Attains Session.Flagged memo (attributes f as) fun memo' _ => memo'.Repeats := by
  unfold attributes
  induction as generalizing memo with
  | nil => exact pure before
  | cons a as ih =>
    rw [List.mapM_cons]
    have first : Attains Session.Flagged memo (do return (a.1, ← f a.2))
        fun memo' (_ : String × Value) => memo'.Repeats :=
      (parts a.2 memo before).bind fun _ _ h => pure h.1
    exact first.bind fun _ _ h => (ih h).bind fun _ _ h' => pure h'

theorem duplicateEntries (es entries : List Entry) :
    Attains Session.Flagged memo (es.foldlM (addEntry Deferred.supplier f) entries)
      fun memo' _ => memo'.Repeats := by
  induction es generalizing memo entries with
  | nil => exact pure before
  | cons e es ih =>
    rw [List.foldlM_cons]
    have first : Attains Session.Flagged memo (addEntry Deferred.supplier f entries e)
        fun memo' _ => memo'.Repeats :=
      (parts e.value memo before).bind fun _ _ h => (parts e.key _ h.1).bind fun _ _ h' =>
        lifted (upholds (consulting.checked.assign [] _ _ _)) fun _ => h'.1
    exact first.bind fun _ entries h => ih h entries

end

/-- What is remembered last. -/
theorem remembers {α : Type} {copy : Value} (before : memo.Repeats) (h : v.Repeats copy)
    {next : Value → Copying α} {post : Memo → α → Prop}
    (rest : ∀ {memo : Memo}, memo.Repeats → Attains Session.Flagged memo (next copy) post) :
    Attains Session.Flagged memo (remember v copy >>= next) post :=
  fun s holds => rest (before.cons h) s holds

theorem remembered {copy : Value} (before : memo.Repeats) (h : v.Repeats copy) :
    Attains Session.Flagged memo (remember v copy) fun memo' c => memo'.Repeats ∧ v.Repeats c :=
  fun _ holds => ⟨holds, before.cons h, h⟩

/-- An object that was not met before is copied. -/
theorem duplicateObject (parts : Duplicates f) (before : memo.Repeats) (v : Value) :
    Attains Session.Flagged memo (ofObject Deferred.supplier f v) fun memo' c =>
      memo'.Repeats ∧ v.Repeats c := by
  have checked := consulting.checked
  have other {v c : Value} (constant : v.isConstant = false) (left : v.isNonNull = false)
      (right : c.isNonNull = false) : v.Repeats c :=
    ⟨fun h => (by rw [constant] at h; cases h), right.trans left.symm⟩
  unfold ofObject
  split
  · exact lift (upholds consulting.freshTag) fun _ => remembered before (other rfl rfl rfl)
  · refine (duplicateAll parts before _).bind fun memo₁ copies h₁ => ?_
    refine look ?_
    split
    · exact pure ⟨h₁, h₁.find? ‹_›⟩
    · split
      · exact pure ⟨h₁, .refl _⟩
      · exact lift (upholds (consulting.newRow _)) fun _ => remembered h₁ (other rfl rfl rfl)
  · refine (parts _ _ before).bind fun _ _ h₁ => (parts _ _ h₁.1).bind fun _ _ h₂ => ?_
    refine (parts _ _ h₂.1).bind fun _ _ h₃ => (parts _ _ h₃.1).bind fun _ _ h₄ => ?_
    exact lift (upholds consulting.freshTag) fun _ => remembered h₄.1 (other rfl rfl rfl)
  · refine read fun s _ => lift (upholds (consulting.newList [])) fun new => ?_
    refine remembers before (other rfl rfl rfl) fun h => ?_
    exact (duplicateAll parts h _).bind fun _ _ h' =>
      change (fun _ flagged => flagged.beside rfl) (pure ⟨h', other rfl rfl rfl⟩)
  · refine read fun s _ => ?_
    rw [show (fun m : Member => f m.value) = f ∘ Member.value from rfl, ← List.mapM_map]
    refine (duplicateAll parts before _).bind fun _ copies h => ?_
    refine lift (upholds (checked.distinct [] copies)) fun members => ?_
    exact lift (upholds (consulting.newSet members)) fun _ => remembered h (other rfl rfl rfl)
  · refine read fun s _ => lift (upholds (consulting.newDict [])) fun new => ?_
    refine remembers before (other rfl rfl rfl) fun h => ?_
    exact (duplicateEntries parts h _ _).bind fun _ _ h' =>
      change (fun _ flagged => flagged.beside rfl) (pure ⟨h', other rfl rfl rfl⟩)
  · refine read fun s _ => lift (upholds (consulting.newNamedType .blank)) fun new => ?_
    refine remembers before (other rfl rfl rfl) fun h => ?_
    refine (duplicatePart parts h _).bind fun _ _ h' => ?_
    exact (duplicateAttributes parts h'.1 _).bind fun _ _ h'' =>
      change (fun _ flagged => flagged.beside rfl) (pure ⟨h'', other rfl rfl rfl⟩)
  · split
    · exact pure ⟨before, .refl _⟩
    · refine read fun s _ => lift (upholds (checked.present _ _ _)) fun description => ?_
      refine (parts _ _ before).bind fun _ _ h₁ => (parts _ _ h₁.1).bind fun _ _ h₂ => ?_
      exact lift (upholds (consulting.newScalar _)) fun _ => remembered h₂.1 (other rfl rfl rfl)
  · refine lift (upholds (checked.wrapped [] _ _)) fun _ => ?_
    refine lift (upholds (checked.wrapped [] _ _)) fun t => ?_
    refine lift (upholds (consulting.newWrapper .blank)) fun new => ?_
    next w r _ =>
    have copy : (Value.wrapper w r).Repeats (.wrapper w new) := by
      refine ⟨fun h => (by cases h), ?_⟩
      cases w <;> rfl
    refine remembers before copy fun h => (parts t _ h).bind fun _ _ h' => ?_
    exact change (fun _ flagged => flagged.beside rfl) (pure ⟨h'.1, copy⟩)
  · next q =>
    refine readType (upholds (checked.type [] _)) fun t s₀ s run holds₀ holds => ?_
    refine lift ?_ fun new => remembers before (other rfl rfl rfl) fun h => ?_
    · exact fun _ flagged => flagged.addArgument .of_blank
    refine (duplicatePart parts h _).bind fun _ name h₁ => ?_
    refine (duplicatePart parts h₁.1 _).bind fun _ description h₂ => ?_
    refine (duplicatePart parts h₂.1 _).bind fun _ hasDefault h₃ => ?_
    refine (duplicatePart parts h₃.1 _).bind fun _ default h₄ => ?_
    refine (parts t _ h₄.1).bind fun _ type h₅ => ?_
    refine (duplicateAttributes parts h₅.1 _).bind fun _ extra h₆ => ?_
    refine change (fun _ flagged => flagged.putArgument new ?_) (pure ⟨h₆, other rfl rfl rfl⟩)
    refine (holds q).copied h₃.2 h₄.2 fun based unresolved => ?_
    obtain rfl := type_of_blank ((checked.type [] q).of_ok run).types run based unresolved
    obtain rfl := h₅.2.constant rfl
    exact ⟨rfl, rfl⟩
  · exact throw _
  · exact pure ⟨before, .refl _⟩

theorem duplicateWithin (n : Nat) : Duplicates (copyWithin Deferred.supplier n) := by
  induction n with
  | zero => exact fun _ _ _ => throw _
  | succ n ih =>
    intro v memo before
    refine look ?_
    split
    · exact pure ⟨before, before.find? ‹_›⟩
    · exact duplicateObject ih before v

end DeepCopy

end DirectiveSchema

import DirectiveSchema.Proofs.Tallying

/-!
Comparisons tally. Attributes of arguments, the unwrapping of types, tests of equality, hash keys,
and what is put into sets and dictionaries by them are the same in a session that is ahead.
-/
namespace DirectiveSchema

open Pairing

variable {φ ψ : Pairing} {strict : Prop} {ws ws' : List Value}

/-- What both actions return is the same. -/
abbrev Same {α : Type} : Pairing → α → α → Prop := fun _ a b => b = a

/-- The supplier of answers while some data are being written. -/
abbrev Supplier.writes (ws : List Value) : Supplier := ⟨ws, Deferred.supplier.answer⟩

theorem Pairing.OneToOne.ref_iff (one : φ.OneToOne) {k : CellKind} {r r' q q' : Ref k}
    (paired : φ (some k) r.index r'.index) (paired' : φ (some k) q.index q'.index) :
    r = q ↔ r' = q' := by
  have same := one.iff paired paired'
  cases r
  cases r'
  cases q
  cases q'
  rwa [Ref.mk.injEq, Ref.mk.injEq]

/-- Numbers that are paired are equal to the same numbers. -/
theorem Pairing.Relates.numbersEqual?_eq {a a' b b' : Value} (h : φ.Relates a a')
    (h' : φ.Relates b b') : Equality.numbersEqual? a' b' = Equality.numbersEqual? a b := by
  cases h with
  | @float x =>
    cases h' with
    | nan => cases x <;> rfl
    | _ => rfl
  | bool | int | nan => cases h' <;> rfl
  | _ => rfl

theorem Pairing.Relates.atomsEqual_eq (one : φ.OneToOne) {a a' b b' : Value} (h : φ.Relates a a')
    (h' : φ.Relates b b') : Equality.atomsEqual a' b' = Equality.atomsEqual a b := by
  simp only [Equality.atomsEqual, h.numbersEqual?_eq h', h.text?_eq, h'.text?_eq, h.same_eq one h']

namespace Tallies

/-- What depends on identities is known to tally only where the pairing is one-to-one. -/
theorem of_one {α β : Type} {x : Action α} {y : Action β} {post : Pairing → α → β → Prop}
    (h : φ.OneToOne → Tallies strict φ x y post) : Tallies strict φ x y post :=
  fun s t abreast => h abreast.one s t abreast

/-! ### Attributes of arguments -/

theorem present (className key : String) {v w : Option Value} (related : φ.RelatesParts v w) :
    Tallies strict φ (Arguments.present className key v) (Arguments.present className key w)
      Relates := by
  cases related with
  | none => exact throw (.inl rfl)
  | some related => exact pure related

section

variable {r r' : Ref .argument} (paired : φ (some .argument) r.index r'.index)

include paired

theorem argumentName : Tallies strict φ (Arguments.name r) (Arguments.name r') Relates :=
  read fun _ _ abreast => present _ _ (abreast.argument paired).name

theorem argumentDescription :
    Tallies strict φ (Arguments.description r) (Arguments.description r') Relates :=
  read fun _ _ abreast => present _ _ (abreast.argument paired).description

theorem argumentHasDefault :
    Tallies strict φ (Arguments.hasDefault r) (Arguments.hasDefault r') Relates :=
  read fun _ _ abreast => present _ _ (abreast.argument paired).hasDefault

theorem argumentDefault :
    Tallies strict φ (Arguments.default r) (Arguments.default r') Relates := by
  refine read fun s t abreast => ?_
  have defaults := (abreast.argument paired).default
  generalize (s.argument r).default = v at defaults ⊢
  generalize (t.argument r').default = w at defaults ⊢
  cases defaults with
  | none => exact throw (.inl rfl)
  | some related => exact pure related

theorem argumentRequired :
    Tallies strict φ (Arguments.required (.writes ws) r) (Arguments.required (.writes ws') r')
      Same := by
  refine (type paired).bindKept (fun _ _ => ?_) fun {ψ a b} le related => ?_
  · exact Evolves.lasting.bindGet fun _ => Evolves.lasting.pure _
  · refine read fun s t abreast => pure ?_
    have defaults := (abreast.argument (le _ _ _ paired)).default
    rw [related.isNonNull_eq]
    generalize (s.argument r).default = v at defaults ⊢
    generalize (t.argument r').default = w at defaults ⊢
    cases defaults <;> rfl

end

/-! ### Types -/

theorem unwrapWithin {n m : Nat} (le : n ≤ m) {v v' : Value} (related : φ.Relates v v') :
    Tallies False φ (Types.unwrapWithin (.writes ws) n v) (Types.unwrapWithin (.writes ws') m v')
      Relates := by
  have leaf {supply : Supplier} {u : Value} (plain : u.isWrapper = false) (n : Nat) :
      Types.unwrapWithin supply n u = Pure.pure u := by
    cases u <;> first | (cases n <;> rfl) | cases plain
  induction n generalizing m φ v v' with
  | zero =>
    cases wrapper : v.isWrapper with
    | false =>
      rw [leaf wrapper, leaf (related.isWrapper_eq.trans wrapper)]
      exact pure related
    | true =>
      cases related with
      | wrapper => exact noRoom rfl False.elim
      | _ => cases wrapper
  | succ n ih =>
    obtain ⟨m, rfl⟩ := Nat.exists_eq_add_of_lt le
    cases wrapper : v.isWrapper with
    | false =>
      rw [leaf wrapper, leaf (related.isWrapper_eq.trans wrapper)]
      exact pure related
    | true =>
      cases related with
      | wrapper w paired =>
        exact (wrapped w paired).bind fun _ related => ih (by omega) related
      | _ => cases wrapper

theorem unwrap {v v' : Value} (related : φ.Relates v v') :
    Tallies False φ (Types.unwrap (.writes ws) v) (Types.unwrap (.writes ws') v') Relates :=
  bounded related.depth_eq fun _ _ _ le => unwrapWithin le related

theorem isInput {v v' : Value} (related : φ.Relates v v') :
    Tallies False φ (Types.isInput (.writes ws) v) (Types.isInput (.writes ws') v') Same :=
  (unwrap related).mapKept fun _ related => related.isScalar_eq

theorem nullable {v v' : Value} (related : φ.Relates v v') :
    Tallies False φ (Types.nullable (.writes ws) v) (Types.nullable (.writes ws') v') Relates := by
  have leaf {supply : Supplier} {u : Value} (plain : u.isNonNull = false) :
      Types.nullable supply u = Pure.pure u := by
    cases u with
    | wrapper w => cases w <;> first | rfl | cases plain
    | _ => rfl
  cases nonNull : v.isNonNull with
  | true =>
    cases related with
    | wrapper w paired =>
      cases w with
      | nonNull => exact wrapped .nonNull paired
      | _ => cases nonNull
    | _ => cases nonNull
  | false =>
    rw [leaf nonNull, leaf (related.isNonNull_eq.trans nonNull)]
    exact pure related

end Tallies

/-! ### Equality -/

/-- How data are compared that are no objects of one kind. -/
def Equality.plainly (eq : Value → Value → Action Bool) (a b : Value) : Action Bool :=
  match a.row?, b.row? with
  | some xs, some ys => rows eq xs ys
  | none, none => pure (atomsEqual a b)
  | _, _ => pure false

/-- Keys of arguments with paired fields. -/
structure Pairing.RelatesArgumentKeys (φ : Pairing) (a b : Equality.ArgumentKey) : Prop where
  name : φ.Relates a.name b.name
  type : φ.Relates a.type b.type
  description : φ.Relates a.description b.description
  hasDefault : φ.Relates a.hasDefault b.hasDefault
  default : φ.RelatesParts a.default b.default

theorem Pairing.RelatesArgumentKeys.mono {a b : Equality.ArgumentKey}
    (h : φ.RelatesArgumentKeys a b) (le : φ ≤ ψ) : ψ.RelatesArgumentKeys a b :=
  ⟨h.name.mono le, h.type.mono le, h.description.mono le, h.hasDefault.mono le, h.default.mono le⟩

/-- Tests of equality that are answered alike. -/
structure EqualAlike (eq eq' : Value → Value → Action Bool) : Prop where
  tallies {φ : Pairing} {a a' b b' : Value} : φ.Relates a a' → φ.Relates b b' →
    Tallies False φ (eq a b) (eq' a' b') Same

namespace EqualAlike

variable {eq eq' : Value → Value → Action Bool} (h : EqualAlike eq eq') {x x' y y' v v' : Value}

include h

theorem element (first : φ.Relates x x') (second : φ.Relates y y') :
    Tallies False φ (Equality.element eq x y) (Equality.element eq' x' y') Same := by
  refine .of_one fun one => ?_
  unfold Equality.element
  rw [first.same_eq one second]
  split
  · exact .pure rfl
  · exact h.tallies first second

theorem rows {xs xs' ys ys' : List Value} (first : φ.RelatesAll xs xs')
    (second : φ.RelatesAll ys ys') :
    Tallies False φ (Equality.rows eq xs ys) (Equality.rows eq' xs' ys') Same := by
  induction xs generalizing φ xs' ys ys' with
  | nil =>
    cases first with
    | nil => cases second <;> exact .pure rfl
  | cons x xs ih =>
    cases first with
    | cons first firsts =>
      cases second with
      | nil => exact .pure rfl
      | cons second seconds =>
        exact .test (h.element first second)
          (fun le => ih (RelatesAll.mono le firsts) (RelatesAll.mono le seconds)) fun _ => .pure rfl

theorem contains {xs xs' : List Value} (first : φ.RelatesAll xs xs') (second : φ.Relates v v') :
    Tallies False φ (Equality.contains eq xs v) (Equality.contains eq' xs' v') Same := by
  induction xs generalizing φ xs' with
  | nil =>
    cases first with
    | nil => exact .pure rfl
  | cons x xs ih =>
    cases first with
    | cons first firsts =>
      exact .test (h.element first second) (fun _ => .pure rfl)
        fun le => ih (RelatesAll.mono le firsts) (second.mono le)

theorem hit {a a' b b' : HashKey} (first : φ.RelatesKeys a a') (kept : φ.Relates x x')
    (second : φ.RelatesKeys b b') (sought : φ.Relates y y') :
    Tallies False φ (Equality.hit eq a x b y) (Equality.hit eq' a' x' b' y') Same := by
  refine .of_one fun one => ?_
  unfold Equality.hit
  by_cases same : a = b
  · rw [if_pos same, if_pos ((first.eq_iff one second).2 same)]
    exact h.element kept sought
  · rw [if_neg same, if_neg fun same' => same ((first.eq_iff one second).1 same')]
    exact .pure rfl

theorem holds {m m' : Member} {ms ms' : List Member} (sought : φ.RelatesMembers m m')
    (among : φ.RelatesSets ms ms') :
    Tallies False φ (Equality.holds eq m ms) (Equality.holds eq' m' ms') Same := by
  induction ms generalizing φ ms' with
  | nil =>
    cases among with
    | nil => exact .pure rfl
  | cons u ms ih =>
    cases among with
    | cons first rest =>
      exact .test (h.hit first.hash first.value sought.hash sought.value) (fun _ => .pure rfl)
        fun le => ih (sought.mono le) (rest.imp fun _ _ member => member.mono le)

theorem lookup {a a' : HashKey} {es es' : List Entry} (key : φ.RelatesKeys a a')
    (sought : φ.Relates x x') (among : φ.RelatesDicts es es') :
    Tallies False φ (Equality.lookup? eq a x es) (Equality.lookup? eq' a' x' es')
      RelatesParts := by
  induction es generalizing φ es' with
  | nil =>
    cases among with
    | nil => exact .pure .none
  | cons e es ih =>
    cases among with
    | cons first rest =>
      exact .test (h.hit first.hash first.key key sought)
        (fun le => .pure (.some (first.value.mono le)))
        fun le => ih (key.mono le) (sought.mono le) (rest.imp fun _ _ entry => entry.mono le)

theorem entries {es es' fs fs' : List Entry} (first : φ.RelatesDicts es es')
    (second : φ.RelatesDicts fs fs') :
    Tallies False φ (Equality.entries eq es fs) (Equality.entries eq' es' fs') Same := by
  induction fs generalizing φ es es' fs' with
  | nil =>
    cases second with
    | nil => exact .pure rfl
  | cons f fs ih =>
    cases second with
    | cons entry rest =>
      refine (h.lookup entry.hash entry.key first).bind fun {ψ u u'} le found => ?_
      cases found with
      | none => exact .pure rfl
      | some related =>
        exact .test (h.element related (entry.value.mono le))
          (fun le' => ih (first.imp fun _ _ e => e.mono (le_trans le le'))
            (rest.imp fun _ _ e => e.mono (le_trans le le')))
          fun _ => .pure rfl

theorem subset {ms ms' us us' : List Member} (first : φ.RelatesSets ms ms')
    (second : φ.RelatesSets us us') :
    Tallies False φ (Equality.subset eq ms us) (Equality.subset eq' ms' us') Same := by
  induction us generalizing φ ms ms' us' with
  | nil =>
    cases second with
    | nil => exact .pure rfl
  | cons u us ih =>
    cases second with
    | cons member rest =>
      exact .test (h.holds member first)
        (fun le => ih (first.imp fun _ _ m => m.mono le) (rest.imp fun _ _ m => m.mono le))
        fun _ => .pure rfl

theorem defaults {a a' b b' : Option Value} (first : φ.RelatesParts a a')
    (second : φ.RelatesParts b b') :
    Tallies False φ (Equality.defaults eq a b) (Equality.defaults eq' a' b') Same := by
  cases first with
  | none => cases second <;> exact .pure rfl
  | some first =>
    cases second with
    | none => exact .pure rfl
    | some second => exact h.element first second

theorem argumentKeys {a a' b b' : Equality.ArgumentKey} (first : φ.RelatesArgumentKeys a a')
    (second : φ.RelatesArgumentKeys b b') :
    Tallies False φ (Equality.argumentKeys eq a b) (Equality.argumentKeys eq' a' b') Same := by
  refine .test (h.element first.name second.name) (fun {ψ₁} le₁ => ?_) fun _ => .pure rfl
  have first := first.mono le₁
  have second := second.mono le₁
  refine .test (h.element first.type second.type) (fun {ψ₂} le₂ => ?_) fun _ => .pure rfl
  have first := first.mono le₂
  have second := second.mono le₂
  refine .test (h.element first.description second.description) (fun {ψ₃} le₃ => ?_)
    fun _ => .pure rfl
  have first := first.mono le₃
  have second := second.mono le₃
  refine .test (h.element first.hasDefault second.hasDefault) (fun {ψ₄} le₄ => ?_)
    fun _ => .pure rfl
  exact h.defaults (first.default.mono le₄) (second.default.mono le₄)

theorem directives {c c' d d' : Directive} (first : φ.RelatesDirectives c c')
    (second : φ.RelatesDirectives d d') :
    Tallies False φ (Equality.directives eq c d) (Equality.directives eq' c' d') Same := by
  refine .test (h.element first.name second.name) (fun {ψ₁} le₁ => ?_) fun _ => .pure rfl
  have first := first.mono le₁
  have second := second.mono le₁
  refine .test (h.element first.description second.description) (fun {ψ₂} le₂ => ?_)
    fun _ => .pure rfl
  have first := first.mono le₂
  have second := second.mono le₂
  refine .test (h.element first.locations second.locations) (fun {ψ₃} le₃ => ?_) fun _ => .pure rfl
  exact h.element (first.args.mono le₃) (second.args.mono le₃)

/-- Data that are no objects of one kind are compared as rows, or as atoms. -/
theorem plainly (first : φ.Relates x x') (second : φ.Relates y y') :
    Tallies False φ (Equality.plainly eq x y) (Equality.plainly eq' x' y') Same := by
  refine .of_one fun one => ?_
  have rows := first.row?
  have rows' := second.row?
  simp only [Equality.plainly, first.atomsEqual_eq one second]
  generalize x.row? = xs at rows ⊢
  generalize x'.row? = xs' at rows ⊢
  generalize y.row? = ys at rows' ⊢
  generalize y'.row? = ys' at rows' ⊢
  cases rows with
  | none => cases rows' <;> exact .pure rfl
  | some parts =>
    cases rows' with
    | none => exact .pure rfl
    | some parts' => exact h.rows parts parts'

end EqualAlike

namespace Tallies

theorem argumentKey {r r' : Ref .argument} (paired : φ (some .argument) r.index r'.index) :
    Tallies False φ (Equality.argumentKey (.writes ws) r) (Equality.argumentKey (.writes ws') r')
      RelatesArgumentKeys := by
  refine (argumentName paired).bind fun {ψ₁ _ _} le₁ name => ?_
  refine (type (le₁ _ _ _ paired)).bind fun {ψ₂ _ _} le₂ type => ?_
  have paired₂ := le_trans le₁ le₂ _ _ _ paired
  refine (argumentDescription paired₂).bind fun {ψ₃ _ _} le₃ description => ?_
  refine (argumentHasDefault (le_trans (le_trans le₁ le₂) le₃ _ _ _ paired)).bind
    fun {ψ₄ _ _} le₄ hasDefault => ?_
  refine read fun s t abreast => pure ⟨name.mono (le_trans (le_trans le₂ le₃) le₄),
    type.mono (le_trans le₃ le₄), description.mono le₄, hasDefault, ?_⟩
  exact (abreast.argument (le_trans (le_trans (le_trans le₁ le₂) le₃) le₄ _ _ _ paired)).default

/-- Each test is made with less room, in either session. -/
theorem equalWithin {n m : Nat} (le : n ≤ m) {a a' b b' : Value} (first : φ.Relates a a')
    (second : φ.Relates b b') : Tallies False φ (Equality.equalWithin (.writes ws) n a b)
      (Equality.equalWithin (.writes ws') m a' b') Same := by
  induction n generalizing m φ a a' b b' with
  | zero =>
    refine noRoom ?_ False.elim
    split <;> rfl
  | succ n ih =>
    obtain ⟨m, rfl⟩ := Nat.exists_eq_add_of_lt le
    have inner : EqualAlike (Equality.equalWithin (.writes ws) n)
        (Equality.equalWithin (.writes ws') (n + m)) :=
      ⟨fun first second => ih (Nat.le_add_right n m) first second⟩
    have plainly := inner.plainly first second
    refine of_one fun one => ?_
    cases first with
    | wrapper w paired =>
      cases second with
      | wrapper w' paired' =>
        simp only [Equality.equalWithin, one.ref_iff paired paired']
        split
        · exact pure rfl
        · split
          · exact pure rfl
          · refine (wrapped w paired).bind fun le first => ?_
            refine (wrapped w' (le _ _ _ paired')).bind fun le' second => ?_
            exact inner.tallies (first.mono le') second
      | _ => exact plainly
    | argument paired =>
      cases second with
      | argument paired' =>
        simp only [Equality.equalWithin, one.ref_iff paired paired']
        split
        · exact pure rfl
        · refine (argumentKey paired).bind fun le first => ?_
          refine (argumentKey (le _ _ _ paired')).bind fun le' second => ?_
          exact inner.argumentKeys (first.mono le') second
      | _ => exact plainly
    | directive paired =>
      cases second with
      | directive paired' =>
        simp only [Equality.equalWithin, one.ref_iff paired paired']
        split
        · exact pure rfl
        · exact read fun s t abreast =>
            inner.directives (abreast.directive paired) (abreast.directive paired')
      | _ => exact plainly
    | list paired =>
      cases second with
      | list paired' =>
        refine read fun s t abreast => read fun s' t' abreast' => ?_
        have xs := abreast.list paired
        have ys := abreast'.list paired'
        simp only [xs.length_eq, ys.length_eq]
        split
        · exact inner.rows xs ys
        · exact pure rfl
      | _ => exact plainly
    | set paired =>
      cases second with
      | set paired' =>
        refine read fun s t abreast => read fun s' t' abreast' => ?_
        have xs := abreast.set paired
        have ys := abreast'.set paired'
        simp only [xs.length_eq, ys.length_eq]
        split
        · exact inner.subset ys xs
        · exact pure rfl
      | _ => exact plainly
    | dict paired =>
      cases second with
      | dict paired' =>
        refine read fun s t abreast => read fun s' t' abreast' => ?_
        have xs := abreast.dict paired
        have ys := abreast'.dict paired'
        simp only [xs.length_eq, ys.length_eq]
        split
        · exact inner.entries ys xs
        · exact pure rfl
      | _ => exact plainly
    | _ => exact plainly

theorem equal : EqualAlike (Equality.equal (.writes ws)) (Equality.equal (.writes ws')) :=
  ⟨fun first second => boundedPairs first.depth_eq fun _ _ _ le => equalWithin le first second⟩

theorem member {xs xs' : List Value} {v v' : Value} (among : φ.RelatesAll xs xs')
    (sought : φ.Relates v v') :
    Tallies False φ (Equality.member (.writes ws) xs v) (Equality.member (.writes ws') xs' v')
      Same :=
  equal.contains among sought

end Tallies

end DirectiveSchema

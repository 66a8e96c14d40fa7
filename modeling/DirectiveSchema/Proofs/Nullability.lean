import DirectiveSchema.Proofs.Bookkeeping

/-!
Non-null types over non-null types. A non-null type refuses to wrap a non-null type, but a reference
over which it was built may be answered with one: then it lapses. As long as no non-null type
lapses, none wraps another, however it was built or copied, and what is nullable is never a non-null
type.
-/
namespace DirectiveSchema

variable {α : Type} {s s' : Session} {u v x : Value} {W W' : Census}

/-! ### What a session holds -/

theorem Arena.holds_iff {contents : α → List Value} {a : Arena α} :
    a.Holds contents W ↔ W.Includes (a.toList.flatMap contents) := by
  simp only [Arena.Holds, Census.Includes, List.mem_flatMap]
  constructor
  · rintro h v ⟨c, hc, hv⟩
    exact h c hc v hv
  · exact fun h c hc v hv => h v ⟨c, hc, hv⟩

namespace Session

/-- All data in the cells of a session and under its names. -/
def held (s : Session) : List Value :=
  s.lists.toList.flatMap id ++ s.sets.toList.flatMap (·.map Member.value) ++
    s.dicts.toList.flatMap (·.flatMap Entry.contents) ++
    s.namedTypes.toList.flatMap NamedType.contents ++
    s.scalars.toList.flatMap ScalarType.holdings ++
    s.wrappers.toList.flatMap WrappingType.contents ++
    s.arguments.toList.flatMap Argument.contents ++
    s.directives.toList.flatMap Directive.contents ++ s.bindings.map Prod.snd

/-- A datum that a session holds, as such or in a tuple or a record. -/
def Occurs (s : Session) (x : Value) : Prop := ∃ v ∈ s.held, x ∈ v.leaves

theorem stores_iff : s.Stores W ↔ W.Includes s.held := by
  simp only [held, Census.includes_append, ← Arena.holds_iff]
  constructor
  · intro h
    exact ⟨⟨⟨⟨⟨⟨⟨⟨h.lists, h.sets⟩, h.dicts⟩, h.namedTypes⟩, h.scalars⟩, h.wrappers⟩, h.arguments⟩,
      h.directives⟩, List.forall_mem_map.2 fun p hp => h.bindings hp⟩
  · rintro ⟨⟨⟨⟨⟨⟨⟨⟨h₁, h₂⟩, h₃⟩, h₄⟩, h₅⟩, h₆⟩, h₇⟩, h₈⟩, h₉⟩
    exact ⟨h₁, h₂, h₃, h₄, h₅, h₆, h₇, h₈, fun hp => h₉ _ (List.mem_map_of_mem hp)⟩

theorem Fits.isListed (h : s.Fits W) (occurs : s.Occurs x) : x.IsListed W := by
  obtain ⟨v, held, among⟩ := occurs
  exact stores_iff.1 h.toStores v held x among

end Session

theorem Value.Belongs.isListed (h : v.Belongs W) : v.IsListed W := by
  cases v with
  | tuple | config => exact ⟨(fun cell => by cases cell), fun same => by cases same⟩
  | _ => exact h _ (List.mem_singleton_self _)

/-- The class and the position of a wrapping type. -/
def Value.wrapper? : Value → Option (Wrapper × Nat)
  | .wrapper w r => some (w, r.index)
  | _ => none

theorem Value.isListed_iff : x.IsListed W ↔
    (∀ c ∈ x.cell?, c.2 < W.count c.1) ∧ ∀ c ∈ x.wrapper?, W.classes[c.2]? = some c.1 := by
  constructor
  · refine fun h => ⟨fun c hc => h.counted hc, fun c hc => ?_⟩
    cases x with
    | wrapper w r =>
      cases hc
      exact h.classed rfl
    | _ => cases hc
  · rintro ⟨counted, classed⟩
    refine ⟨fun cell => counted _ cell, fun same => ?_⟩
    subst same
    exact classed _ rfl

instance : Decidable (x.IsListed W) := decidable_of_iff _ Value.isListed_iff.symm

/-- Whether a wrapping type was answered with a non-null type. -/
def WrappingType.lapsed (c : WrappingType) : Bool :=
  match c.source, c.resolved with
  | some (.deferred _), some t => t.isNonNull
  | _, _ => false

theorem Session.lapses_iff {r : Ref .wrapper} : s.Lapses r ↔ (s.wrapper r).lapsed = true := by
  constructor
  · rintro ⟨d, t, based, resolved, nonNull⟩
    simp only [WrappingType.lapsed, based, resolved, nonNull]
  · intro lapsed
    rw [WrappingType.lapsed] at lapsed
    split at lapsed
    · exact ⟨_, _, ‹_›, ‹_›, lapsed⟩
    · cases lapsed

instance (s : Session) (r : Ref .wrapper) : Decidable (s.Lapses r) :=
  decidable_of_iff _ Session.lapses_iff.symm

/-! ### Sessions of a run -/

namespace BuiltIn

/-- The census of the session before the first request. -/
def census : Census where
  count := session.count
  classes := [.nonNull, .nonNull]
  lapsed := []

/-- The wrappers before the first request are over a scalar, and not resolved. -/
theorem wrapper_cases (r : Ref .wrapper) :
    session.wrapper r = truthRequired ∨ session.wrapper r = default := by
  obtain ⟨i⟩ := r
  match i with
  | 0 | 1 => exact .inl rfl
  | i + 2 => exact .inr (Arena.get_of_le (Nat.le_add_left 2 i))

theorem session_fits : session.Fits census :=
  have stores : session.Stores census := by
    have listed : ∀ x ∈ session.held.flatMap Value.leaves, x.IsListed census := by decide +kernel
    exact Session.stores_iff.2 fun v held x among => listed x (List.mem_flatMap.2 ⟨v, held, among⟩)
  { stores with
    count := fun _ => rfl
    classes := rfl
    wraps := fun {i t} _ based nonNull => by
      rcases wrapper_cases ⟨i⟩ with same | same
      all_goals
        rw [same] at based
        cases based
      cases nonNull
    resolves := fun {r u} known => by
      rcases wrapper_cases r with same | same
      all_goals
        rw [same] at known
        cases known
    lapsed := fun among => absurd among List.not_mem_nil }

end BuiltIn

theorem Census.extends_of_le {C : Nat → Census} (chain : ∀ n, (C n).Extends false (C (n + 1)))
    {n m : Nat} (le : n ≤ m) : (C n).Extends false (C m) := by
  induction le with
  | refl => exact .refl _
  | step _ ih => exact ih.trans (chain _)

namespace Session

/-- Without a lapse, what is known of the type that a non-null type wraps is that it is none. -/
theorem Fits.nullable (h : s.Fits W) (honest : W.lapsed = []) {r : Ref .wrapper} {t : Value}
    (classed : W.classes[r.index]? = some .nonNull) (lapses : ¬s.Lapses r)
    (known : (s.wrapper r).source = some t ∨ (s.wrapper r).resolved = some t) :
    t.isNonNull = false := by
  refine Bool.eq_false_iff.2 fun nonNull => ?_
  have wraps {t : Value} (based : (s.wrapper r).source = some t) (nonNull : t.isNonNull = true) :
      False := h.wraps classed based nonNull honest
  rcases known with based | resolved
  · exact wraps based nonNull
  · obtain ⟨source, based, rfl | ⟨d, rfl⟩⟩ := h.resolves resolved
    · exact wraps based nonNull
    · exact lapses ⟨d, t, based, resolved, nonNull⟩

end Session

/-! ### Nullable types -/

/-- What is nullable of a datum is no non-null type, and is nullable itself; unless the datum is a
non-null type that lapses. -/
def Session.NullableOnce (s : Session) (v : Value) : Prop :=
  ∀ u s', Types.nullable Deferred.supplier v s = .ok u s' →
    (∀ r, v = .wrapper .nonNull r → ¬s'.Lapses r) →
      u.isNonNull = false ∧ Types.nullable Deferred.supplier u s' = .ok u s'

theorem Types.nullable_of_other {supply : Supplier} (other : v.isNonNull = false) :
    Types.nullable supply v = pure v := by
  cases v with
  | wrapper w r =>
    cases w with
    | nonNull => cases other
    | list | plain => rfl
  | _ => rfl

theorem Session.Fits.nullableOnce (h : s.Fits W) (honest : W.lapsed = []) (listed : v.IsListed W) :
    s.NullableOnce v := by
  intro u s' run lapses
  suffices other : u.isNonNull = false from
    ⟨other, by rw [Types.nullable_of_other other]; rfl⟩
  cases nonNull : v.isNonNull with
  | false =>
    rw [Types.nullable_of_other nonNull] at run
    cases run
    exact nonNull
  | true =>
    obtain ⟨r, rfl⟩ := Value.eq_of_isNonNull nonNull
    have admits : W.Yields true (Types.wrapped Deferred.supplier .nonNull r) :=
      Census.Admits.wrapped _ _
    obtain ⟨W', more, fits, -⟩ := admits s h
    have run : Types.wrapped Deferred.supplier .nonNull r s = .ok u s' := run
    rw [Action.after_of_ok run] at fits
    refine Bool.eq_false_iff.2 fun nonNull => ?_
    have known : u.isNull = false := by cases u <;> first | rfl | cases nonNull
    obtain ⟨c, cell, resolved⟩ := Snapshot.wrapped_kept run known
    obtain ⟨c', read, same⟩ := Option.map_eq_some_iff.1 cell
    cases same
    obtain ⟨-, rfl⟩ := Arena.get?_eq_some read
    have other := fits.nullable ((more.same rfl).trans honest) (more.classes (listed.classed rfl))
      (lapses r rfl) (.inr resolved)
    rw [other] at nonNull
    cases nonNull

/-- The classes of the wrapping types of a run, in the order in which they were built: under these
they occur at any time of it. -/
structure Request.Classes (qs : List Request) (classes : List Wrapper) : Prop where
  size : classes.length = (BuiltIn.session.runAll qs).2.wrappers.size
  occurs {n : Nat} {w : Wrapper} {r : Ref .wrapper} :
    (BuiltIn.session.runAll (qs.take n)).2.Occurs (.wrapper w r) → classes[r.index]? = some w

/-- Every wrapping type is of one class. Unless one that is a non-null type lapsed, no non-null type
is over a non-null type or has one as its type, and what is nullable is no non-null type. -/
theorem non_null_types_wrap_nullable_types (qs : List Request) :
    let s := (BuiltIn.session.runAll qs).2
    ∃ classes, Request.Classes qs classes ∧
      ((∀ r : Ref .wrapper, classes[r.index]? = some .nonNull → ¬s.Lapses r) →
        (∀ r t, s.Occurs (.wrapper .nonNull r) →
          (s.wrapper r).source = some t ∨ (s.wrapper r).resolved = some t → t.isNonNull = false) ∧
        (∀ v, s.Occurs v → s.NullableOnce v) ∧
        ∀ (t : TypeExpression) v s', t.eval Deferred.supplier s = .ok v s' →
          s'.NullableOnce v) := by
  intro s
  obtain ⟨C, -, chain, fits⟩ := BuiltIn.session_fits.runAll qs
  have final : s.Fits (C qs.length) := by simpa using fits qs.length
  have classes : Request.Classes qs (C qs.length).classes := by
    refine ⟨final.classes, fun {n w r} occurs => ?_⟩
    rcases Nat.le_total n qs.length with le | ge
    · exact (Census.extends_of_le chain le).classes (((fits n).isListed occurs).classed rfl)
    · rw [List.take_of_length_le ge] at occurs
      exact (final.isListed occurs).classed rfl
  refine ⟨_, classes, fun unlapsed => ?_⟩
  have honest : (C qs.length).lapsed = [] := by
    refine List.eq_nil_iff_forall_not_mem.2 fun i among => ?_
    obtain ⟨nonNull, lapses⟩ := final.lapsed among
    exact unlapsed ⟨i⟩ nonNull lapses
  refine ⟨fun r t occurs known => ?_, fun v occurs => ?_, fun t v s' run => ?_⟩
  · have nonNull := (final.isListed occurs).classed rfl
    exact final.nullable honest nonNull (unlapsed r nonNull) known
  · exact final.nullableOnce honest (final.isListed occurs)
  · have admits : (C qs.length).Yields true (t.eval Deferred.supplier) :=
      Census.Admits.typeValue t _
    obtain ⟨W', more, fits', result⟩ := admits s final
    rw [Action.after_of_ok run] at fits'
    exact fits'.nullableOnce ((more.same rfl).trans honest)
      (result v (Action.result?_of_ok run)).isListed

/-- A non-null type over a later scalar, a list over a later non-null type, which is resolved, and a
copy of the first. -/
def nullableRequests : List Request :=
  [.declareType "n" (.wrap .nonNull (.deferred "z" (.ref "Int"))),
    .declareType "l" (.wrap .list (.deferred "y" (.wrap .nonNull (.ref "Int")))),
    .isInputType (.ref "l"),
    .copy (.ref "n") .deep (some "m")]

/-- A wrapping type that is bound to a name occurs in the session. -/
theorem Session.occurs_of_bound {name : String} {w : Wrapper} {r : Ref .wrapper}
    (bound : (s.binding? name).any (Value.same (.wrapper w r)) = true) :
    s.Occurs (.wrapper w r) := by
  cases found : s.binding? name with
  | none =>
    rw [found] at bound
    cases bound
  | some v =>
    rw [found, Option.any_some] at bound
    have same : v = .wrapper w r := by
      cases v with
      | wrapper w' r' =>
        simp only [Value.same, Bool.and_eq_true, beq_iff_eq] at bound
        rw [bound.1, bound.2]
      | _ => cases bound
    subst same
    obtain ⟨l₁, l₂, split, -⟩ := List.lookup_eq_some_iff.1 found
    have bound : Value.wrapper w r ∈ s.bindings.map Prod.snd := by simp [split]
    exact ⟨.wrapper w r, List.mem_append_right _ bound, List.mem_singleton_self _⟩

/-- The copy of a non-null type over a later scalar has a nullable type, though the reference of a
list was answered with a non-null type. -/
theorem later_non_null_types_are_nullable_once :
    let s := (BuiltIn.session.runAll nullableRequests).2
    s.Lapses ⟨3⟩ ∧ s.Occurs (.wrapper .list ⟨3⟩) ∧ s.Occurs (.wrapper .nonNull ⟨5⟩) ∧
      s.NullableOnce (.wrapper .nonNull ⟨5⟩) := by
  intro s
  have list : s.Occurs (.wrapper .list ⟨3⟩) := by
    have bound : (s.binding? "l").any (Value.same (.wrapper .list ⟨3⟩)) = true := by decide +kernel
    exact Session.occurs_of_bound bound
  have copy : s.Occurs (.wrapper .nonNull ⟨5⟩) := by
    have bound : (s.binding? "m").any (Value.same (.wrapper .nonNull ⟨5⟩)) = true := by
      decide +kernel
    exact Session.occurs_of_bound bound
  obtain ⟨classes, known, rest⟩ := non_null_types_wrap_nullable_types nullableRequests
  have unlapsed (r : Ref .wrapper) (nonNull : classes[r.index]? = some .nonNull) : ¬s.Lapses r := by
    have size : s.wrappers.size = 6 := by decide +kernel
    have live : r.index < 6 := size ▸ known.size ▸ (List.getElem?_eq_some_iff.1 nonNull).1
    have only : ∀ i < 6, s.Lapses ⟨i⟩ → i = 3 := by decide +kernel
    intro lapses
    have third := known.occurs (n := 4) list
    rw [only r.index live lapses, third] at nonNull
    cases nonNull
  obtain ⟨-, once, -⟩ := rest unlapsed
  exact ⟨by decide +kernel, list, copy, once _ copy⟩

end DirectiveSchema

import DirectiveSchema.Proofs.Nesting
import DirectiveSchema.Proofs.Resolution
import DirectiveSchema.Proofs.Shape

/-!
Sessions that differ in which types are resolved. A cell promises a type when its source is that
type, or a deferred type that stands for it, and no other type is kept there. Whether a promise is
kept already does not matter: of two sessions that differ in nothing else, but for the calls that
were counted, no action can tell which is which. It ends in the same way in both, and leaves two
sessions of this kind again.
-/
namespace DirectiveSchema

variable {α β : Type} {answer : List Value → Deferred → Action Value} {b s s' s₁ u u' : Session}
  {t t' v source : Value} {w : Wrapper} {r : Ref .wrapper} {q : Ref .argument}

/-! ### Data that deferred types stand for -/

mutual

/-- The datum that an expression stands for, by what is bound to each name. -/
def Expression.standing? (bound : String → Option Value) : Expression → Option Value
  | .null => some .null
  | .bool b => some (.bool b)
  | .int n => some (.int n)
  | .float (.nan _) => none
  | .float x => some (.float x)
  | .text t => some (.text t)
  | .bytes bs => some (.bytes bs)
  | .location l => some (.location l)
  | .ref name => bound name
  | .type t => t.standing? bound
  | _ => none

def TypeExpression.standing? (bound : String → Option Value) : TypeExpression → Option Value
  | .ref name => bound name
  | .value v => v.standing? bound
  | _ => none

end

theorem Expression.lookup_of_bound {name : String} (bound : s.binding? name = some v) :
    Expression.lookup name s = .ok v s := by
  rw [Expression.lookup, Action.get_bind, bound]
  rfl

mutual

theorem Expression.eval_of_standing? {e : Expression} (h : e.standing? s.binding? = some v)
    (supply : Supplier) : e.eval supply s = .ok v s ∧ e.isStanding = true := by
  cases e with
  | null | bool | int | text | bytes | location =>
    cases h
    exact ⟨rfl, rfl⟩
  | float x =>
    cases x with
    | nan => cases h
    | finite | infinite =>
      cases h
      exact ⟨rfl, rfl⟩
  | ref name => exact ⟨Expression.lookup_of_bound h, rfl⟩
  | type t => exact TypeExpression.eval_of_standing? h supply
  | _ => cases h

theorem TypeExpression.eval_of_standing? {e : TypeExpression}
    (h : e.standing? s.binding? = some v) (supply : Supplier) :
    e.eval supply s = .ok v s ∧ e.isStanding = true := by
  cases e with
  | ref name => exact ⟨Expression.lookup_of_bound h, rfl⟩
  | value e => exact Expression.eval_of_standing? h supply
  | _ => cases h

end

mutual

/-- What stands for a datum that is there reads no types. -/
theorem Expression.readsTypes_of_isStanding {e : Expression} (h : e.isStanding = true) :
    e.readsTypes = false := by
  cases e with
  | type t => exact TypeExpression.readsTypes_of_isStanding (e := t) h
  | null | bool | int | text | bytes | location | float | ref => rfl
  | _ => cases h

theorem TypeExpression.readsTypes_of_isStanding {e : TypeExpression}
    (h : e.isStanding = true) : e.readsTypes = false := by
  cases e with
  | value v => exact Expression.readsTypes_of_isStanding (e := v) h
  | ref => rfl
  | _ => cases h

end

/-- What a source gives without any evaluation: itself, or what a deferred type stands for. -/
def Session.given? (s : Session) : Value → Option Value
  | .deferred d => d.body.standing? s.binding?
  | v => some v

theorem Deferred.evaluate_of_given? {d : Deferred} (h : s.given? (.deferred d) = some t)
    (supply : Supplier) :
    d.evaluate supply s = .ok t { s with calls := d.counter :: s.calls } :=
  (TypeExpression.eval_of_standing? (s := { s with calls := d.counter :: s.calls }) h supply).1

theorem Deferred.callWithin_of_given? {d : Deferred} (h : s.given? (.deferred d) = some t)
    (n : Nat) (ws : List Value) :
    Deferred.callWithin n ws d s = .ok t { s with calls := d.counter :: s.calls } := by
  cases n with
  | zero =>
    unfold Deferred.callWithin
    rw [if_pos (TypeExpression.eval_of_standing? h ⟨ws, fun _ _ => throw .endless⟩).2]
    exact Deferred.evaluate_of_given? h _
  | succ n => exact Deferred.evaluate_of_given? h _

/-- A source that resolves to itself gives itself. -/
theorem Session.given?_of_isKnown (known : v.isKnown = true) : s.given? v = some v := by
  cases v with
  | deferred => cases known
  | _ => rfl

/-! ### Promises -/

theorem WrappingType.Settles.unresolved {c c' : WrappingType} (h : c.Settles c')
    (now : c'.resolved = none) : c.resolved = none :=
  Option.eq_none_iff_forall_ne_some.2 fun _ known => nomatch now.symm.trans (h.resolved known)

theorem Argument.Settles.unresolved {c c' : Argument} (h : c.Settles c')
    (now : c'.resolved = none) : c.resolved = none :=
  Option.eq_none_iff_forall_ne_some.2 fun _ known => nomatch now.symm.trans (h.resolved known)

namespace Session

/-- A source gives a type, which is no deeper than the data of the session. -/
structure Pledges (b : Session) (source t : Value) : Prop where
  given : b.given? source = some t
  notNull : t.isNull = false
  shallow : t.depth ≤ b.depth

theorem Pledges.unique (h : b.Pledges source t) (h' : b.Pledges source t') : t = t' :=
  Option.some.inj (h.given.symm.trans h'.given)

theorem Extends.given? (h : b.Extends s) (source : Value) : s.given? source = b.given? source := by
  have bound : s.binding? = b.binding? := by
    funext name
    rw [binding?, h.bindings, binding?]
  cases source with
  | deferred d => rw [Session.given?, Session.given?, bound]
  | _ => rfl

/-- What a cell promises, by its source and by what is resolved there. -/
structure Promises (b : Session) (source resolved : Option Value) (t : Value) : Prop where
  based : ∃ x, source = some x ∧ b.Pledges x t
  resolved : resolved = none ∨ resolved = some t

theorem Promises.unique {source resolved resolved' : Option Value}
    (h : b.Promises source resolved t) (h' : b.Promises source resolved' t') : t = t' := by
  obtain ⟨x, based, pledged⟩ := h.based
  obtain ⟨x', based', pledged'⟩ := h'.based
  cases based.symm.trans based'
  exact pledged.unique pledged'

abbrev PromisesWrapped (b s : Session) (r : Ref .wrapper) (t : Value) : Prop :=
  b.Promises (s.wrapper r).source (s.wrapper r).resolved t

abbrev PromisesType (b s : Session) (q : Ref .argument) (t : Value) : Prop :=
  b.Promises (some (s.argument q).source) (s.argument q).resolved t

/-- A later session in which what was promised still is. -/
structure Honours (b s : Session) : Prop where
  extension : b.Extends s
  wrapper {r : Ref .wrapper} {t : Value} : r.index < b.wrappers.size →
    b.PromisesWrapped b r t → b.PromisesWrapped s r t
  argument {q : Ref .argument} {t : Value} : q.index < b.arguments.size →
    b.PromisesType b q t → b.PromisesType s q t

namespace Honours

theorem refl (b : Session) : b.Honours b := ⟨.refl b, fun _ => id, fun _ => id⟩

/-- What is added to a session breaks no promise. -/
theorem leaves (h : b.Honours s) (extension : s.Extends u) (left : s.LeavesTypes u) :
    b.Honours u where
  extension := h.extension.trans extension
  wrapper {r t} live promised := by
    have same : s.wrapper r = u.wrapper r :=
      left.wrappers.cell (Nat.lt_of_lt_of_le live h.extension.wrappers.size)
    rw [PromisesWrapped, ← same]
    exact h.wrapper live promised
  argument {q t} live promised := by
    have same : s.argument q = u.argument q :=
      left.arguments.cell (Nat.lt_of_lt_of_le live h.extension.arguments.size)
    rw [PromisesType, ← same]
    exact h.argument live promised

theorem added (h : b.Honours s) {x : Action α}
    (kept : ∀ {R : Session → Session → Prop}, Addition R → Keeps R x) : b.Honours (x.after s) :=
  h.leaves (kept Extends.growth.toAddition s) (kept LeavesTypes.addition s)

/-- A wrapper is resolved by what its source gives, if it is known what that is. -/
theorem putWrapper (h : b.Honours s) (h' : b.Honours u)
    (unresolved : (s.wrapper r).resolved = none) (based : (s.wrapper r).source = some source)
    (may : MayResolve source t) (aimed : ∀ t', b.Pledges source t' → t = t') :
    b.Honours (u.putWrapper r { u.wrapper r with resolved := Types.kept t }) where
  extension := { h'.extension with
    wrappers := h'.extension.wrappers.put fun live => by
      have settles := h.extension.wrapper live
      exact (h'.extension.wrapper live).resolve (settles.unresolved unresolved)
        (settles.source.symm.trans based) may }
  wrapper {r'} t' live promised := by
    have now := h'.wrapper live promised
    by_cases same : r.index = r'.index
    · obtain rfl : r = r' := Value.eq_iff_index.2 same
      have cell := Arena.get_put_self u.wrappers { u.wrapper r with resolved := Types.kept t }
        (Nat.lt_of_lt_of_le live h'.extension.wrappers.size)
      obtain ⟨x, based', pledged⟩ := (h.wrapper live promised).based
      cases based.symm.trans based'
      obtain rfl := aimed t' pledged
      rw [PromisesWrapped, show (u.putWrapper r _).wrapper r = _ from cell]
      exact ⟨now.based, .inr (Types.kept_of_not_isNull pledged.notNull)⟩
    · have cell := Arena.get_put_of_ne u.wrappers { u.wrapper r with resolved := Types.kept t } same
      rw [PromisesWrapped, show (u.putWrapper r _).wrapper r' = _ from cell]
      exact now
  argument := h'.argument

theorem putArgument (h : b.Honours s) (h' : b.Honours u)
    (unresolved : (s.argument q).resolved = none) (may : MayResolve (s.argument q).source t)
    (aimed : ∀ t', b.Pledges (s.argument q).source t' → t = t') :
    b.Honours (u.putArgument q { u.argument q with resolved := Types.kept t }) where
  extension := { h'.extension with
    arguments := h'.extension.arguments.put fun live => by
      have settles := h.extension.argument live
      exact (h'.extension.argument live).resolve (settles.unresolved unresolved)
        (settles.source ▸ may) }
  wrapper := h'.wrapper
  argument {q'} t' live promised := by
    have now := h'.argument live promised
    by_cases same : q.index = q'.index
    · obtain rfl : q = q' := Value.eq_iff_index.2 same
      have cell := Arena.get_put_self u.arguments { u.argument q with resolved := Types.kept t }
        (Nat.lt_of_lt_of_le live h'.extension.arguments.size)
      obtain ⟨x, based, pledged⟩ := (h.argument live promised).based
      cases based
      obtain rfl := aimed t' pledged
      rw [PromisesType, show (u.putArgument q _).argument q = _ from cell]
      exact ⟨now.based, .inr (Types.kept_of_not_isNull pledged.notNull)⟩
    · have cell := Arena.get_put_of_ne u.arguments { u.argument q with resolved := Types.kept t }
        same
      rw [PromisesType, show (u.putArgument q _).argument q' = _ from cell]
      exact now

end Honours

end Session

/-! ### Sessions that are akin -/

/-- Two arenas of one size, cell by cell. -/
structure Arena.Parallel {γ : Type} [Inhabited γ] (rel : γ → γ → Prop) (a b : Arena γ) : Prop where
  size : a.size = b.size
  cell (i : Nat) : rel (a.get i) (b.get i)

namespace Arena.Parallel

variable {γ : Type} [Inhabited γ] {rel : γ → γ → Prop} {a b : Arena γ} {c c' : γ}

theorem refl (hr : ∀ x, rel x x) (a : Arena γ) : a.Parallel rel a := ⟨rfl, fun _ => hr _⟩

theorem symm (hs : ∀ {x y}, rel x y → rel y x) (h : a.Parallel rel b) : b.Parallel rel a :=
  ⟨h.size.symm, fun i => hs (h.cell i)⟩

theorem grown (h : a.Parallel rel b) : a.Extends rel b :=
  ⟨Nat.le_of_eq h.size, fun {i} _ => h.cell i⟩

theorem add (h : a.Parallel rel b) (new : rel c c') : (a.add c).Parallel rel (b.add c') where
  size := by rw [size_add, size_add, h.size]
  cell i := by
    rcases Nat.lt_trichotomy i a.size with live | rfl | beyond
    · rw [a.get_add_of_lt c live, b.get_add_of_lt c' (h.size ▸ live)]
      exact h.cell i
    · rw [a.get_add_self, h.size, b.get_add_self]
      exact new
    · have before := h.cell i
      rw [get_of_le (Nat.le_of_lt beyond), get_of_le (h.size ▸ Nat.le_of_lt beyond)] at before
      rw [get_of_le (by rwa [size_add]), get_of_le (by rw [size_add, ← h.size]; exact beyond)]
      exact before

theorem put (h : a.Parallel rel b) (i : Nat) (new : rel c c') :
    (a.put i c).Parallel rel (b.put i c') where
  size := by rw [size_put, size_put, h.size]
  cell j := by
    by_cases same : i = j
    · subst same
      rcases Nat.lt_or_ge i a.size with live | beyond
      · rw [a.get_put_self c live, b.get_put_self c' (h.size ▸ live)]
        exact new
      · have before := h.cell i
        rw [get_of_le beyond, get_of_le (h.size ▸ beyond)] at before
        rw [get_of_le (by rwa [size_put]), get_of_le (by rw [size_put, ← h.size]; exact beyond)]
        exact before
    · rw [a.get_put_of_ne c same, b.get_put_of_ne c' same]
      exact h.cell j

/-- A cell that is changed on one side. -/
theorem putLeft (h : a.Parallel rel b) (i : Nat) (new : rel c (b.get i)) :
    (a.put i c).Parallel rel b := by
  have both := h.put i new
  rwa [b.put_get] at both

end Arena.Parallel

/-- Wrapping types that differ at most in whether a promise is kept already. -/
structure WrappingType.Akin (b : Session) (c c' : WrappingType) : Prop where
  source : c.source = c'.source
  extra : c.extra = c'.extra
  resolved : c.resolved = c'.resolved ∨
    ∃ t, b.Promises c.source c.resolved t ∧ b.Promises c'.source c'.resolved t

structure Argument.Akin (b : Session) (c c' : Argument) : Prop where
  name : c.name = c'.name
  description : c.description = c'.description
  hasDefault : c.hasDefault = c'.hasDefault
  default : c.default = c'.default
  source : c.source = c'.source
  extra : c.extra = c'.extra
  resolved : c.resolved = c'.resolved ∨
    ∃ t, b.Promises (some c.source) c.resolved t ∧ b.Promises (some c'.source) c'.resolved t

namespace WrappingType.Akin

variable {c c' : WrappingType}

theorem refl (b : Session) (c : WrappingType) : c.Akin b c := ⟨rfl, rfl, .inl rfl⟩

theorem symm (h : c.Akin b c') : c'.Akin b c :=
  ⟨h.source.symm, h.extra.symm, h.resolved.imp Eq.symm fun ⟨t, left, right⟩ => ⟨t, right, left⟩⟩

/-- What one of them promises is promised by the other. -/
theorem promises (h : c.Akin b c') (promised : b.Promises c.source c.resolved t) :
    b.Promises c'.source c'.resolved t := by
  rcases h.resolved with same | ⟨t', left, right⟩
  · rwa [← h.source, ← same]
  · obtain rfl := promised.unique left
    exact right

/-- A promise that is kept on one side. -/
theorem kept (h : c.Akin b c') (promised : b.Promises c.source c.resolved t) :
    { c with resolved := some t }.Akin b c' :=
  ⟨h.source, h.extra, .inr ⟨t, ⟨promised.based, .inr rfl⟩, h.promises promised⟩⟩

end WrappingType.Akin

namespace Argument.Akin

variable {c c' : Argument}

theorem refl (b : Session) (c : Argument) : c.Akin b c :=
  ⟨rfl, rfl, rfl, rfl, rfl, rfl, .inl rfl⟩

theorem symm (h : c.Akin b c') : c'.Akin b c :=
  ⟨h.name.symm, h.description.symm, h.hasDefault.symm, h.default.symm, h.source.symm, h.extra.symm,
    h.resolved.imp Eq.symm fun ⟨t, left, right⟩ => ⟨t, right, left⟩⟩

theorem promises (h : c.Akin b c') (promised : b.Promises (some c.source) c.resolved t) :
    b.Promises (some c'.source) c'.resolved t := by
  rcases h.resolved with same | ⟨t', left, right⟩
  · rwa [← h.source, ← same]
  · obtain rfl := promised.unique left
    exact right

theorem kept (h : c.Akin b c') (promised : b.Promises (some c.source) c.resolved t) :
    { c with resolved := some t }.Akin b c' :=
  { h with resolved := .inr ⟨t, ⟨promised.based, .inr rfl⟩, h.promises promised⟩ }

end Argument.Akin

/-- Two sessions that came of one and that differ at most in which promises are kept already, and in
which calls were counted. -/
structure Session.Akin (b s s' : Session) : Prop where
  left : b.Honours s
  right : b.Honours s'
  lists : s.lists = s'.lists
  sets : s.sets = s'.sets
  dicts : s.dicts = s'.dicts
  namedTypes : s.namedTypes = s'.namedTypes
  scalars : s.scalars = s'.scalars
  directives : s.directives = s'.directives
  nextTag : s.nextTag = s'.nextTag
  journal : s.journal = s'.journal
  wrappers : s.wrappers.Parallel (WrappingType.Akin b) s'.wrappers
  arguments : s.arguments.Parallel (Argument.Akin b) s'.arguments

theorem Value.depths_le {vs : List Value} {n : Nat} (h : ∀ v ∈ vs, v.depth ≤ n) :
    Value.depths vs ≤ n := by
  induction vs with
  | nil => exact Nat.zero_le n
  | cons v vs ih =>
    exact Nat.max_le.2 ⟨h v List.mem_cons_self, ih fun u hu => h u (List.mem_cons_of_mem v hu)⟩

namespace Session.Akin

theorem refl (b : Session) : b.Akin b b where
  left := .refl b
  right := .refl b
  lists := rfl
  sets := rfl
  dicts := rfl
  namedTypes := rfl
  scalars := rfl
  directives := rfl
  nextTag := rfl
  journal := rfl
  wrappers := .refl (.refl b) _
  arguments := .refl (.refl b) _

theorem symm (h : b.Akin s s') : b.Akin s' s where
  left := h.right
  right := h.left
  lists := h.lists.symm
  sets := h.sets.symm
  dicts := h.dicts.symm
  namedTypes := h.namedTypes.symm
  scalars := h.scalars.symm
  directives := h.directives.symm
  nextTag := h.nextTag.symm
  journal := h.journal.symm
  wrappers := h.wrappers.symm WrappingType.Akin.symm
  arguments := h.arguments.symm Argument.Akin.symm

theorem bindings (h : b.Akin s s') : s.bindings = s'.bindings :=
  h.left.extension.bindings.trans h.right.extension.bindings.symm

theorem wrapper (h : b.Akin s s') (r : Ref .wrapper) : (s.wrapper r).Akin b (s'.wrapper r) :=
  h.wrappers.cell r.index

theorem argument (h : b.Akin s s') (q : Ref .argument) :
    (s.argument q).Akin b (s'.argument q) :=
  h.arguments.cell q.index

/-- A type that is kept on one side only is no deeper than what the other session holds. -/
theorem depth_le_of_resolved (h : b.Akin s s') {source source' resolved resolved' : Option Value}
    (akin : resolved = resolved' ∨
      ∃ t, b.Promises source resolved t ∧ b.Promises source' resolved' t)
    (known : resolved = some v) : resolved' = some v ∨ v.depth ≤ s'.depth := by
  rcases akin with same | ⟨t, promised, -⟩
  · exact .inl (same ▸ known)
  · obtain ⟨x, -, pledged⟩ := promised.based
    rcases promised.resolved with unresolved | resolved
    · cases unresolved.symm.trans known
    · cases resolved.symm.trans known
      exact .inr (pledged.shallow.trans (Value.depths_mono h.right.extension.contents))

theorem depth_le (h : b.Akin s s') : s.depth ≤ s'.depth := by
  refine Value.depths_le fun v hv => ?_
  have inside (hv : v ∈ s'.contents) : v.depth ≤ s'.depth := Value.depth_le_depths hv
  simp only [contents, List.mem_append, h.lists, h.sets, h.dicts, h.namedTypes, h.scalars,
    h.directives] at hv inside
  rcases hv with ((hv | hv) | hv) | hv
  · exact inside (.inl (.inl (.inl hv)))
  · obtain ⟨c, hc, hv⟩ := List.mem_flatMap.1 hv
    obtain ⟨c', hc', akin⟩ := h.wrappers.grown.exists_cell hc
    have among (hv : v ∈ c'.contents) : v.depth ≤ s'.depth :=
      inside (.inl (.inl (.inr (List.mem_flatMap.2 ⟨c', hc', hv⟩))))
    simp only [WrappingType.contents, List.mem_append, akin.source, akin.extra] at hv among
    rcases hv with (hv | hv) | hv
    · exact among (.inl (.inl hv))
    · rcases h.depth_le_of_resolved akin.resolved (Option.mem_toList.1 hv) with known | shallow
      · exact among (.inl (.inr (Option.mem_toList.2 known)))
      · exact shallow
    · exact among (.inr hv)
  · obtain ⟨c, hc, hv⟩ := List.mem_flatMap.1 hv
    obtain ⟨c', hc', akin⟩ := h.arguments.grown.exists_cell hc
    have among (hv : v ∈ c'.contents) : v.depth ≤ s'.depth :=
      inside (.inl (.inr (List.mem_flatMap.2 ⟨c', hc', hv⟩)))
    simp only [Argument.contents, List.mem_append, List.mem_cons, akin.name, akin.description,
      akin.hasDefault, akin.default, akin.source, akin.extra] at hv among
    rcases hv with (hv | hv | hv) | hv
    · exact among (.inl (.inl hv))
    · exact among (.inl (.inr (.inl hv)))
    · rcases h.depth_le_of_resolved akin.resolved (Option.mem_toList.1 hv) with known | shallow
      · exact among (.inl (.inr (.inr (Option.mem_toList.2 known))))
      · exact shallow
    · exact among (.inr hv)
  · exact inside (.inr hv)

theorem reach_le (h : b.Akin s s') : s.reach ≤ s'.reach := by
  have deep := h.depth_le
  have wrappers :=
    h.wrappers.grown.sum_le (f := fun c => c.source.elim 0 sourceWeight) fun akin => by
      simp only [akin.source, Nat.le_refl]
  have arguments := h.arguments.grown.sum_le (f := fun c => sourceWeight c.source) fun akin => by
    simp only [akin.source, Nat.le_refl]
  have := h.wrappers.size
  have := h.arguments.size
  simp only [reach, h.lists, h.sets, h.dicts, h.namedTypes, h.scalars, h.directives, h.nextTag,
    h.bindings]
  omega

/-- Nothing that is observed tells the sessions apart, but for types. -/
theorem shows (h : b.Akin s s') : s.Shows s' where
  lists := h.lists
  sets := h.sets
  dicts := h.dicts
  namedTypes := h.namedTypes
  scalars := h.scalars
  directives := h.directives
  bindings := h.bindings
  name q := (h.argument q).name
  description q := (h.argument q).description
  hasDefault q := (h.argument q).hasDefault
  default q := (h.argument q).default
  reach := Nat.le_antisymm h.reach_le h.symm.reach_le

end Session.Akin

/-! ### Actions that cannot tell -/

/-- Two runs that end in the same way, in sessions that are akin. -/
inductive Session.Meets (b : Session) :
    EStateM.Result Fault Session α → EStateM.Result Fault Session α → Prop where
  | ok (a : α) {u u' : Session} : b.Akin u u' → Meets b (.ok a u) (.ok a u')
  | error (f : Fault) {u u' : Session} : b.Akin u u' → Meets b (.error f u) (.error f u')

theorem Session.Meets.returned {a a' : α} (same : a = a') (akin : b.Akin u u') :
    b.Meets (.ok a u) (.ok a' u') := same ▸ .ok a akin

/-- Two actions that end in the same way, each in one of two sessions that are akin. -/
def Session.Accord (b : Session) (x y : Action α) : Prop :=
  ∀ s s' : Session, b.Akin s s' → b.Meets (x s) (y s')

/-- An action that ends in the same way in sessions that are akin. -/
abbrev Session.Blind (b : Session) (x : Action α) : Prop := b.Accord x x

/-- Actions that accord end in the same way, with the same notices given. -/
theorem Session.Accord.outcome {x y : Action α} (h : b.Accord x y) (akin : b.Akin s s') :
    x.outcome s = y.outcome s' ∧ (x.after s).journal = (y.after s').journal := by
  have met := h s s' akin
  simp only [Action.outcome, Action.after]
  generalize x s = left, y s' = right at met
  cases met with
  | ok a akin => exact ⟨rfl, akin.journal⟩
  | error f akin => exact ⟨rfl, akin.journal⟩

/-- What returns in one of two sessions that are akin returns the same in the other. -/
theorem Session.Accord.ok {x y : Action α} {a : α} (h : b.Accord x y) (akin : b.Akin s s')
    (run : x s = .ok a u) : ∃ u', y s' = .ok a u' ∧ b.Akin u u' := by
  have met := h s s' akin
  generalize run' : y s' = right at met
  rw [run] at met
  cases met with
  | ok _ akin => exact ⟨_, rfl, akin⟩

namespace Session.Accord

theorem pure (a : α) : b.Accord (Pure.pure a) (Pure.pure a) := fun _ _ => .ok a

theorem throw (f : Fault) : b.Accord (MonadExcept.throw f : Action α) (MonadExcept.throw f) :=
  fun _ _ => .error f

theorem bind {x y : Action α} {f g : α → Action β} (first : b.Accord x y)
    (rest : ∀ a, b.Accord (f a) (g a)) : b.Accord (x >>= f) (y >>= g) := by
  intro s s' akin
  have met := first s s' akin
  generalize run : x s = left, run' : y s' = right at met
  cases met with
  | ok a akin =>
    rw [Action.bind_of_ok run, Action.bind_of_ok run']
    exact rest a _ _ akin
  | error f akin =>
    rw [Action.bind_of_error run, Action.bind_of_error run']
    exact .error f akin

theorem tryCatch {x y : Action α} {f g : Fault → Action α} (first : b.Accord x y)
    (rest : ∀ e, b.Accord (f e) (g e)) :
    b.Accord (MonadExcept.tryCatch x f) (MonadExcept.tryCatch y g) := by
  intro s s' akin
  have met := first s s' akin
  generalize run : x s = left, run' : y s' = right at met
  cases met with
  | ok a akin =>
    rw [Action.tryCatch_of_ok run, Action.tryCatch_of_ok run']
    exact .ok a akin
  | error e akin =>
    rw [Action.tryCatch_of_error run, Action.tryCatch_of_error run']
    exact rest e _ _ akin

/-- A step that is followed by another one and then by the rest. -/
theorem bindBoth {γ : Type} {x y : Action α} {f g : α → Action β} {k l : β → Action γ}
    (first : b.Accord (x >>= f) (y >>= g)) (rest : ∀ c, b.Accord (k c) (l c)) :
    b.Accord (x >>= fun a => f a >>= k) (y >>= fun a => g a >>= l) := by
  have both := first.bind rest
  rwa [bind_assoc, bind_assoc] at both

/-- Sessions that are akin are searched to the same depth. -/
theorem bounded {outside : Nat} {f g : Nat → Action α} (rest : ∀ n, b.Accord (f n) (g n)) :
    b.Accord (Action.bounded outside f) (Action.bounded outside g) := by
  intro s s' akin
  rw [Action.bounded_succ, Action.bounded_succ, akin.shows.reach]
  exact rest _ _ _ akin

theorem boundedPairs {outside : Nat} {f g : Nat → Action α} (rest : ∀ n, b.Accord (f n) (g n)) :
    b.Accord (Action.boundedPairs outside f) (Action.boundedPairs outside g) :=
  bounded fun _ => rest _

end Session.Accord

namespace Session.Blind

theorem closed (b : Session) : Closed b.Blind where
  pure := .pure
  throw := .throw
  bind first rest := .bind first rest
  tryCatch first rest := .tryCatch first rest
  look {α f} same rest := by
    intro s s' akin
    show b.Meets (f s s) (f s' s')
    rw [← same akin.shows]
    exact rest s _ _ akin

/-- What is added to one of two sessions that are akin is added to the other as well. -/
theorem adding (b : Session) : Adding b.Blind where
  toClosed := closed b
  freshTag _ _ akin := .returned akin.nextTag { akin with
    left := akin.left.added (·.freshTag)
    right := akin.right.added (·.freshTag)
    nextTag := congrArg Nat.succ akin.nextTag }
  newList c _ _ akin := .returned (congrArg (Ref.mk ∘ Arena.size) akin.lists) { akin with
    left := akin.left.added (·.newList c)
    right := akin.right.added (·.newList c)
    lists := congrArg (·.add c) akin.lists }
  newSet c _ _ akin := .returned (congrArg (Ref.mk ∘ Arena.size) akin.sets) { akin with
    left := akin.left.added (·.newSet c)
    right := akin.right.added (·.newSet c)
    sets := congrArg (·.add c) akin.sets }
  newDict c _ _ akin := .returned (congrArg (Ref.mk ∘ Arena.size) akin.dicts) { akin with
    left := akin.left.added (·.newDict c)
    right := akin.right.added (·.newDict c)
    dicts := congrArg (·.add c) akin.dicts }
  newNamedType c _ _ akin := .returned (congrArg (Ref.mk ∘ Arena.size) akin.namedTypes) { akin with
    left := akin.left.added (·.newNamedType c)
    right := akin.right.added (·.newNamedType c)
    namedTypes := congrArg (·.add c) akin.namedTypes }
  newScalar c _ _ akin := .returned (congrArg (Ref.mk ∘ Arena.size) akin.scalars) { akin with
    left := akin.left.added (·.newScalar c)
    right := akin.right.added (·.newScalar c)
    scalars := congrArg (·.add c) akin.scalars }
  newWrapper c _ _ akin := .returned (congrArg Ref.mk akin.wrappers.size) { akin with
    left := akin.left.added (·.newWrapper c)
    right := akin.right.added (·.newWrapper c)
    wrappers := akin.wrappers.add (.refl b c) }
  newArgument c _ _ akin := .returned (congrArg Ref.mk akin.arguments.size) { akin with
    left := akin.left.added (·.newArgument c)
    right := akin.right.added (·.newArgument c)
    arguments := akin.arguments.add (.refl b c) }
  newDirective c _ _ akin := .returned (congrArg (Ref.mk ∘ Arena.size) akin.directives) { akin with
    left := akin.left.added (·.newDirective c)
    right := akin.right.added (·.newDirective c)
    directives := congrArg (·.add c) akin.directives }
  created name locations _ _ akin := .returned rfl { akin with
    left := akin.left.added (·.created name locations)
    right := akin.right.added (·.created name locations)
    journal := congrArg (· ++ _) akin.journal }
  count counter _ _ akin := .returned rfl { akin with
    left := akin.left.added (·.count counter)
    right := akin.right.added (·.count counter) }

end Session.Blind

/-! ### Types -/

namespace Session

/-- Answers that cannot tell sessions apart that are akin, and that give what deferred types stand
for. -/
structure Serves (b : Session) (answer : List Value → Deferred → Action Value) : Prop where
  blind (ws : List Value) (d : Deferred) : b.Blind (answer ws d)
  given {ws : List Value} {d : Deferred} {s : Session} {t : Value} :
    s.given? (.deferred d) = some t →
      answer ws d s = .ok t { s with calls := d.counter :: s.calls }

theorem Pledges.mayResolve (h : b.Pledges source t) : MayResolve source t := by
  have given := h.given
  cases source with
  | deferred d => exact .inr ⟨d, rfl⟩
  | _ =>
    cases given
    exact .inl rfl

/-- A demand for what is pledged is met. At most a call is counted. -/
theorem Serves.demand_of_pledge (h : b.Serves answer) (ws : List Value) (honours : b.Honours s)
    (pledged : b.Pledges source t) :
    ∃ calls, Types.demand ⟨ws, answer⟩ source s = .ok t { s with calls } := by
  have given := (honours.extension.given? source).trans pledged.given
  cases source with
  | deferred d => exact ⟨_, h.given given⟩
  | _ =>
    cases given
    exact ⟨s.calls, rfl⟩

theorem Serves.demand (h : b.Serves answer) (ws : List Value) (source : Value) :
    b.Blind (Types.demand ⟨ws, answer⟩ source) := by
  cases source with
  | deferred d => exact h.blind ws d
  | _ => exact .pure _

/-- What is answered in place of a pledge is what was pledged. -/
theorem Serves.aimed (h : b.Serves answer) {ws : List Value} (honours : b.Honours s)
    (run : Types.demand ⟨ws, answer⟩ source s = .ok t u) (t' : Value)
    (pledged : b.Pledges source t') : t = t' := by
  obtain ⟨calls, answered⟩ := h.demand_of_pledge ws honours pledged
  rw [run] at answered
  cases answered
  rfl

/-- Whatever calls were counted. -/
theorem Akin.countLeft (h : b.Akin s s') (calls : List String) : b.Akin { s with calls } s' :=
  { h with left := ⟨{ h.left.extension with }, h.left.wrapper, h.left.argument⟩ }

/-- A promise is kept on one side, and the sessions stay akin. -/
theorem Akin.wrapped_of_promise (h : b.Akin s s') (serves : b.Serves answer)
    (promised : b.PromisesWrapped s r t) (ws : List Value) (w : Wrapper) :
    ∃ u, Types.wrapped ⟨ws, answer⟩ w r s = .ok t u ∧ b.Akin u s' := by
  rcases promised.resolved with unresolved | resolved
  · obtain ⟨source, based, pledged⟩ := promised.based
    obtain ⟨calls, answered⟩ := serves.demand_of_pledge ws h.left pledged
    have counted := h.countLeft calls
    refine ⟨_, Types.wrapped_of_demand unresolved based answered, { counted with
      left := h.left.putWrapper counted.left unresolved based pledged.mayResolve
        fun _ pledged' => pledged.unique pledged'
      wrappers := counted.wrappers.putLeft r.index ?_ }⟩
    rw [Types.kept_of_not_isNull pledged.notNull]
    exact (counted.wrapper r).kept promised
  · exact ⟨s, Types.wrapped_of_resolved resolved, h⟩

theorem Akin.type_of_promise (h : b.Akin s s') (serves : b.Serves answer)
    (promised : b.PromisesType s q t) (ws : List Value) :
    ∃ u, Arguments.type ⟨ws, answer⟩ q s = .ok t u ∧ b.Akin u s' := by
  rcases promised.resolved with unresolved | resolved
  · obtain ⟨source, based, pledged⟩ := promised.based
    cases based
    obtain ⟨calls, answered⟩ := serves.demand_of_pledge ws h.left pledged
    have counted := h.countLeft calls
    refine ⟨_, Arguments.type_of_demand unresolved answered, { counted with
      left := h.left.putArgument counted.left unresolved pledged.mayResolve
        fun _ pledged' => pledged.unique pledged'
      arguments := counted.arguments.putLeft q.index ?_ }⟩
    rw [Types.kept_of_not_isNull pledged.notNull]
    exact (counted.argument q).kept promised
  · exact ⟨s, Arguments.type_of_resolved resolved, h⟩

namespace Serves

/-- Both sides resolve the wrapper, or a promise is kept already on one of them. -/
theorem wrapped (h : b.Serves answer) (ws : List Value) (w : Wrapper) (r : Ref .wrapper) :
    b.Blind (Types.wrapped ⟨ws, answer⟩ w r) := by
  intro s s' akin
  have cells := akin.wrapper r
  rcases cells.resolved with same | ⟨t, left, right⟩
  · cases known : (s.wrapper r).resolved with
    | some t =>
      rw [Types.wrapped_of_resolved known, Types.wrapped_of_resolved (same.symm.trans known)]
      exact .ok t akin
    | none =>
      have known' := same.symm.trans known
      cases based : (s.wrapper r).source with
      | none =>
        have based' := cells.source.symm.trans based
        rw [Types.wrapped_of_blank known based, Types.wrapped_of_blank known' based']
        exact .error _ akin
      | some source =>
        have based' := cells.source.symm.trans based
        have met := h.demand ws source s s' akin
        generalize run : Types.demand _ source s = left, run' : Types.demand _ source s' = right
          at met
        cases met with
        | ok t met =>
          rw [Types.wrapped_of_demand known based run, Types.wrapped_of_demand known' based' run']
          have cells := met.wrapper r
          have may := mayResolve_of_demand run
          exact .ok t { met with
            left := akin.left.putWrapper met.left known based may (h.aimed akin.left run)
            right := akin.right.putWrapper met.right known' based' may (h.aimed akin.right run')
            wrappers := met.wrappers.put r.index ⟨cells.source, cells.extra, .inl rfl⟩ }
        | error f met =>
          rw [Types.wrapped_of_fault known based run, Types.wrapped_of_fault known' based' run']
          exact .error f met
  · obtain ⟨u, run, akin⟩ := akin.wrapped_of_promise h left ws w
    obtain ⟨u', run', akin⟩ := akin.symm.wrapped_of_promise h right ws w
    rw [run, run']
    exact .ok t akin.symm

theorem type (h : b.Serves answer) (ws : List Value) (q : Ref .argument) :
    b.Blind (Arguments.type ⟨ws, answer⟩ q) := by
  intro s s' akin
  have cells := akin.argument q
  rcases cells.resolved with same | ⟨t, left, right⟩
  · cases known : (s.argument q).resolved with
    | some t =>
      rw [Arguments.type_of_resolved known, Arguments.type_of_resolved (same.symm.trans known)]
      exact .ok t akin
    | none =>
      have known' := same.symm.trans known
      have met := h.demand ws (s.argument q).source s s' akin
      generalize run : Types.demand _ _ s = left, run' : Types.demand _ _ s' = right at met
      have run'' := cells.source ▸ run'
      cases met with
      | ok t met =>
        rw [Arguments.type_of_demand known run, Arguments.type_of_demand known' run'']
        have cells := met.argument q
        exact .ok t { met with
          left := akin.left.putArgument met.left known (mayResolve_of_demand run)
            (h.aimed akin.left run)
          right := akin.right.putArgument met.right known' (mayResolve_of_demand run'')
            (h.aimed akin.right run'')
          arguments := met.arguments.put q.index { cells with resolved := .inl rfl } }
      | error f met =>
        rw [Arguments.type_of_fault known run, Arguments.type_of_fault known' run'']
        exact .error f met
  · obtain ⟨u, run, akin⟩ := akin.type_of_promise h left ws
    obtain ⟨u', run', akin⟩ := akin.symm.type_of_promise h right ws
    rw [run, run']
    exact .ok t akin.symm

theorem observing (h : b.Serves answer) : Observing answer b.Blind where
  toClosed := Blind.closed b
  wrapped := h.wrapped
  type := h.type

theorem noting (h : b.Serves answer) : Noting answer b.Blind where
  toObserving := h.observing
  note n _ _ akin := .returned rfl { akin with
    left := ⟨{ akin.left.extension with }, akin.left.wrapper, akin.left.argument⟩
    right := ⟨{ akin.right.extension with }, akin.right.wrapper, akin.right.argument⟩
    journal := congrArg (· ++ [n]) akin.journal }

theorem evaluate (h : b.Serves answer) (ws : List Value) (d : Deferred) :
    b.Blind (d.evaluate ⟨ws, answer⟩) :=
  (Blind.adding b).evaluate ws d fun _ => h.observing

/-- The induction is on the calls inside, as with any answer. At the end of them, where no other
call is answered, what a deferred type stands for is still given. -/
theorem callWithin (b : Session) (n : Nat) : b.Serves (Deferred.callWithin n) := by
  refine ⟨fun ws d => ?_, fun given => Deferred.callWithin_of_given? given n _⟩
  induction n generalizing ws d with
  | zero =>
    unfold Deferred.callWithin
    split
    · next standing =>
      refine (Blind.adding b).evaluate ws d fun reads => ?_
      rw [TypeExpression.readsTypes_of_isStanding standing] at reads
      cases reads
    · exact .throw _
  | succ n ih =>
    exact evaluate ⟨ih, fun given => Deferred.callWithin_of_given? given n _⟩ ws d

theorem supplier (b : Session) : b.Serves Deferred.supplier.answer where
  blind ws d := .bounded fun n => (callWithin b n).blind ws d
  given given := Deferred.callWithin_of_given? given _ _

end Serves

end Session

end DirectiveSchema

import DirectiveSchema.Proofs.Answering
import DirectiveSchema.Proofs.Extension

/-!
A census of a session counts its cells and knows the class of every wrapping type. Data belong to a
census when all cells that they refer to are counted, wrapping types under their class; a session
fits a census when all that it holds belongs to it. The census only grows: what is built is counted,
and what refers to it belongs to the larger census.

A non-null type over a type that is known never wraps a non-null type, unless it is the copy of one
that does. Where that comes from is on record: wrappers that lapsed, since a deferred type answered
them with a non-null type.
-/
namespace DirectiveSchema

variable {α β : Type} {s s' : Session} {u v x : Value}

/-! ### What data refer to -/

namespace Value

/-- The kind and the position of the cell that a datum refers to. -/
def cell? : Value → Option (CellKind × Nat)
  | .list r => some (.list, r.index)
  | .set r => some (.set, r.index)
  | .dict r => some (.dict, r.index)
  | .named r => some (.named, r.index)
  | .scalar r => some (.scalar, r.index)
  | .wrapper _ r => some (.wrapper, r.index)
  | .argument r => some (.argument, r.index)
  | .directive r => some (.directive, r.index)
  | _ => none

mutual

/-- The data that a datum consists of once all tuples and records in it are opened. -/
def leaves : Value → List Value
  | .tuple _ items => leavesAll items
  | .config _ name locations args description =>
    name.leaves ++ locations.leaves ++ args.leaves ++ description.leaves
  | v => [v]

def leavesAll : List Value → List Value
  | [] => []
  | v :: vs => v.leaves ++ leavesAll vs

end

theorem mem_leavesAll {vs : List Value} : x ∈ leavesAll vs ↔ ∃ v ∈ vs, x ∈ v.leaves := by
  induction vs with
  | nil => simp [leavesAll]
  | cons v vs ih => simp [leavesAll, ih]

end Value

def Session.count (s : Session) : CellKind → Nat
  | .list => s.lists.size
  | .set => s.sets.size
  | .dict => s.dicts.size
  | .named => s.namedTypes.size
  | .scalar => s.scalars.size
  | .wrapper => s.wrappers.size
  | .argument => s.arguments.size
  | .directive => s.directives.size

/-- The data that a coercion returns. -/
def Coercion.contents : Coercion → List Value
  | .constant v => [v]
  | _ => []

/-- All data of a scalar type, with those that its coercions return. -/
def ScalarType.holdings (c : ScalarType) : List Value :=
  c.contents ++ c.serialize.contents ++ c.parse.contents

/-- A wrapper that a deferred type answered with a non-null type. -/
def Session.Lapses (s : Session) (r : Ref .wrapper) : Prop :=
  ∃ d t, (s.wrapper r).source = some (.deferred d) ∧ (s.wrapper r).resolved = some t ∧
    t.isNonNull = true

/-! ### The census -/

structure Census where
  count : CellKind → Nat
  /-- The classes of the wrapping types, in the order in which they were built. -/
  classes : List Wrapper
  /-- Non-null types that lapsed. -/
  lapsed : List Nat

/-- A census that counts more. In a steady time no lapse is put on record. -/
structure Census.Extends (steady : Bool) (W W' : Census) : Prop where
  count (k : CellKind) : W.count k ≤ W'.count k
  classes {i : Nat} {w : Wrapper} : W.classes[i]? = some w → W'.classes[i]? = some w
  lapsed : W.lapsed ⊆ W'.lapsed
  same : steady = true → W'.lapsed = W.lapsed

namespace Census.Extends

variable {steady : Bool} {W W' W'' : Census}

theorem refl (W : Census) : W.Extends steady W :=
  ⟨fun _ => Nat.le_refl _, id, fun _ => id, fun _ => rfl⟩

theorem trans (h : W.Extends steady W') (h' : W'.Extends steady W'') : W.Extends steady W'' where
  count k := Nat.le_trans (h.count k) (h'.count k)
  classes known := h'.classes (h.classes known)
  lapsed _ among := h'.lapsed (h.lapsed among)
  same still := (h'.same still).trans (h.same still)

theorem weaken (h : W.Extends true W') : W.Extends steady W' :=
  { h with same := fun _ => h.same rfl }

theorem nonempty (h : W.Extends steady W') (lapsed : W.lapsed ≠ []) : W'.lapsed ≠ [] := by
  obtain ⟨i, among⟩ := List.exists_mem_of_ne_nil _ lapsed
  exact List.ne_nil_of_mem (h.lapsed among)

end Census.Extends

/-- A datum that refers to a cell which is counted. -/
structure Value.IsListed (W : Census) (v : Value) : Prop where
  counted {k : CellKind} {i : Nat} : v.cell? = some (k, i) → i < W.count k
  classed {w : Wrapper} {r : Ref .wrapper} : v = .wrapper w r → W.classes[r.index]? = some w

/-- A datum that refers only to cells which are counted. -/
def Value.Belongs (W : Census) (v : Value) : Prop := ∀ x ∈ v.leaves, x.IsListed W

namespace Value

variable {W W' : Census} {steady : Bool}

theorem IsListed.mono (h : v.IsListed W) (more : W.Extends steady W') : v.IsListed W' where
  counted cell := Nat.lt_of_lt_of_le (h.counted cell) (more.count _)
  classed same := more.classes (h.classed same)

theorem Belongs.mono (h : v.Belongs W) (more : W.Extends steady W') : v.Belongs W' :=
  fun x hx => (h x hx).mono more

theorem belongs_tuple {tag : Nat} {items : List Value} :
    (Value.tuple tag items).Belongs W ↔ ∀ v ∈ items, v.Belongs W := by
  simp only [Belongs, leaves, mem_leavesAll]
  exact ⟨fun h v hv x hx => h x ⟨v, hv, hx⟩, fun h x ⟨v, hv, hx⟩ => h v hv x hx⟩

theorem belongs_config {tag : Nat} {name locations args description : Value} :
    (Value.config tag name locations args description).Belongs W ↔
      name.Belongs W ∧ locations.Belongs W ∧ args.Belongs W ∧ description.Belongs W := by
  simp only [Belongs, leaves, List.mem_append]
  constructor
  · exact fun h => ⟨fun x hx => h x (.inl (.inl (.inl hx))),
      fun x hx => h x (.inl (.inl (.inr hx))), fun x hx => h x (.inl (.inr hx)),
      fun x hx => h x (.inr hx)⟩
  · rintro ⟨h₁, h₂, h₃, h₄⟩ x (((hx | hx) | hx) | hx)
    · exact h₁ x hx
    · exact h₂ x hx
    · exact h₃ x hx
    · exact h₄ x hx

/-- A datum that refers to no cell belongs to any census. -/
theorem belongs_of_leaf (leaf : v.leaves = [v]) (free : v.cell? = none) : v.Belongs W := by
  intro x hx
  rw [leaf, List.mem_singleton] at hx
  subst hx
  refine ⟨fun cell => ?_, fun {w r} same => ?_⟩
  · rw [free] at cell
    cases cell
  · rw [same] at free
    cases free

/-- A reference belongs to a census that counts its cell. -/
theorem belongs_of_counted {k : CellKind} {i : Nat} (cell : v.cell? = some (k, i))
    (plain : v.isWrapper = false) (counted : i < W.count k) : v.Belongs W := by
  have leaf : v.leaves = [v] := by cases v <;> first | rfl | cases cell
  intro x hx
  rw [leaf, List.mem_singleton] at hx
  subst hx
  refine ⟨fun cell' => ?_, fun {w r} same => ?_⟩
  · rw [cell] at cell'
    cases cell'
    exact counted
  · rw [same] at plain
    cases plain

theorem belongs_wrapper {w : Wrapper} {r : Ref .wrapper} :
    (Value.wrapper w r).Belongs W ↔
      r.index < W.count .wrapper ∧ W.classes[r.index]? = some w := by
  simp only [Belongs, leaves, List.mem_singleton, forall_eq]
  refine ⟨fun h => ⟨h.counted rfl, h.classed rfl⟩, fun ⟨counted, classed⟩ => ⟨?_, ?_⟩⟩
  · rintro k i ⟨⟩
    exact counted
  · rintro w' r' ⟨⟩
    exact classed

end Value

namespace Arena

variable [Inhabited α] (a : Arena α) (c : α)

theorem get_add_cases (i : Nat) :
    (a.add c).get i = a.get i ∨ i = a.size ∧ (a.add c).get i = c := by
  rcases Nat.lt_trichotomy i a.size with live | rfl | beyond
  · exact .inl (a.get_add_of_lt c live)
  · exact .inr ⟨rfl, a.get_add_self c⟩
  · have beyond' : (a.add c).size ≤ i := by rw [size_add]; exact beyond
    rw [get_of_le (Nat.le_of_lt beyond), get_of_le beyond']
    exact .inl rfl

theorem get_put_cases (i j : Nat) :
    (a.put i c).get j = a.get j ∨ j = i ∧ (a.put i c).get j = c := by
  by_cases same : i = j
  · subst same
    rcases Nat.lt_or_ge i a.size with live | dead
    · exact .inr ⟨rfl, a.get_put_self c live⟩
    · rw [get_of_le dead, get_of_le (by rwa [size_put])]
      exact .inl rfl
  · exact .inl (a.get_put_of_ne c same)

end Arena

/-- All cells of an arena hold data that belong to a census. -/
def Arena.Holds (contents : α → List Value) (W : Census) (a : Arena α) : Prop :=
  ∀ c ∈ a.toList, ∀ v ∈ contents c, v.Belongs W

namespace Arena.Holds

variable {contents : α → List Value} {W W' : Census} {steady : Bool} {a : Arena α} {c : α}

theorem mono (h : a.Holds contents W) (more : W.Extends steady W') : a.Holds contents W' :=
  fun c hc v hv => (h c hc v hv).mono more

theorem add (h : a.Holds contents W) (held : ∀ v ∈ contents c, v.Belongs W) :
    (a.add c).Holds contents W := by
  intro c' hc'
  simp only [toList, Arena.add, Array.toList_push, List.mem_append, List.mem_singleton] at hc'
  rcases hc' with hc' | rfl
  · exact h c' hc'
  · exact held

theorem put (h : a.Holds contents W) (i : Nat) (held : ∀ v ∈ contents c, v.Belongs W) :
    (a.put i c).Holds contents W := by
  intro c' hc'
  simp only [toList, Arena.put, Array.toList_setIfInBounds] at hc'
  rcases List.mem_or_eq_of_mem_set hc' with hc' | rfl
  · exact h c' hc'
  · exact held

variable [Inhabited α]

theorem get (h : a.Holds contents W) (empty : contents default = []) (i : Nat) :
    ∀ v ∈ contents (a.get i), v.Belongs W := by
  by_cases live : i < a.size
  · exact h _ (a.get_mem_toList live)
  · rw [get_of_le (Nat.le_of_not_lt live), empty]
    exact fun v hv => absurd hv List.not_mem_nil

end Arena.Holds

/-- All that a session holds belongs to a census. -/
structure Session.Stores (W : Census) (s : Session) : Prop where
  lists : s.lists.Holds id W
  sets : s.sets.Holds (·.map Member.value) W
  dicts : s.dicts.Holds (·.flatMap Entry.contents) W
  namedTypes : s.namedTypes.Holds NamedType.contents W
  scalars : s.scalars.Holds ScalarType.holdings W
  wrappers : s.wrappers.Holds WrappingType.contents W
  arguments : s.arguments.Holds Argument.contents W
  directives : s.directives.Holds Directive.contents W
  bindings {p : String × Value} : p ∈ s.bindings → p.2.Belongs W

theorem Session.Stores.mono {W W' : Census} {steady : Bool} (h : s.Stores W)
    (more : W.Extends steady W') : s.Stores W' where
  lists := h.lists.mono more
  sets := h.sets.mono more
  dicts := h.dicts.mono more
  namedTypes := h.namedTypes.mono more
  scalars := h.scalars.mono more
  wrappers := h.wrappers.mono more
  arguments := h.arguments.mono more
  directives := h.directives.mono more
  bindings hp := (h.bindings hp).mono more

/-- A session that a census describes. -/
structure Session.Fits (W : Census) (s : Session) : Prop extends Session.Stores W s where
  count (k : CellKind) : s.count k = W.count k
  classes : W.classes.length = s.wrappers.size
  /-- A non-null type over a non-null type has a lapse behind it. -/
  wraps {i : Nat} {t : Value} : W.classes[i]? = some .nonNull →
    (s.wrapper ⟨i⟩).source = some t → t.isNonNull = true → W.lapsed ≠ []
  resolves {r : Ref .wrapper} {u : Value} : (s.wrapper r).resolved = some u →
    ∃ t, (s.wrapper r).source = some t ∧ MayResolve t u
  lapsed {i : Nat} : i ∈ W.lapsed → W.classes[i]? = some .nonNull ∧ s.Lapses ⟨i⟩

namespace Session.Fits

variable {W W' : Census}

/-! What a session holds belongs to its census. -/

theorem list (h : s.Fits W) (r : Ref .list) : ∀ v ∈ s.list r, v.Belongs W :=
  h.lists.get rfl r.index

theorem set (h : s.Fits W) (r : Ref .set) : ∀ m ∈ s.set r, m.value.Belongs W := fun _ hm =>
  h.sets.get rfl r.index _ (List.mem_map_of_mem hm)

theorem dict (h : s.Fits W) (r : Ref .dict) :
    ∀ e ∈ s.dict r, e.key.Belongs W ∧ e.value.Belongs W := fun e he => by
  have held {v : Value} (hv : v ∈ e.contents) : v.Belongs W :=
    h.dicts.get rfl r.index v (List.mem_flatMap.2 ⟨e, he, hv⟩)
  exact ⟨held (by simp [Entry.contents]), held (by simp [Entry.contents])⟩

theorem namedType (h : s.Fits W) (r : Ref .named) :
    ∀ v ∈ (s.namedType r).contents, v.Belongs W := h.namedTypes.get rfl r.index

theorem scalar (h : s.Fits W) (r : Ref .scalar) :
    ∀ v ∈ (s.scalar r).holdings, v.Belongs W := h.scalars.get rfl r.index

theorem wrapper (h : s.Fits W) (r : Ref .wrapper) :
    ∀ v ∈ (s.wrapper r).contents, v.Belongs W := h.wrappers.get rfl r.index

theorem argument (h : s.Fits W) (r : Ref .argument) :
    ∀ v ∈ (s.argument r).contents, v.Belongs W := by
  by_cases live : r.index < s.arguments.size
  · exact h.arguments _ (s.arguments.get_mem_toList live)
  · rw [Session.argument, Arena.get_of_le (Nat.le_of_not_lt live)]
    intro v hv
    have null : (default : Argument).contents = [.null] := rfl
    rw [null, List.mem_singleton] at hv
    subst hv
    exact Value.belongs_of_leaf rfl rfl

theorem directive (h : s.Fits W) (r : Ref .directive) :
    ∀ v ∈ (s.directive r).contents, v.Belongs W := by
  by_cases live : r.index < s.directives.size
  · exact h.directives _ (s.directives.get_mem_toList live)
  · rw [Session.directive, Arena.get_of_le (Nat.le_of_not_lt live)]
    intro v hv
    have plain : v = .text "_" ∨ v = .null ∨ v = .tuple 0 [] := by
      simpa [Directive.contents, default, Row.value] using hv
    rcases plain with rfl | rfl | rfl
    · exact Value.belongs_of_leaf rfl rfl
    · exact Value.belongs_of_leaf rfl rfl
    · exact Value.belongs_tuple.2 fun _ hx => absurd hx List.not_mem_nil

theorem binding (h : s.Fits W) {name : String} (bound : s.binding? name = some v) :
    v.Belongs W := by
  have among : (name, v) ∈ s.bindings := by
    rw [Session.binding?] at bound
    obtain ⟨l₁, l₂, split, -⟩ := List.lookup_eq_some_iff.1 bound
    rw [split]
    simp
  exact h.bindings among

/-- The wrapping types are as they were, and so is what is known about them. -/
theorem beside (h : s.Fits W) (same : s'.wrappers = s.wrappers) (stores : s'.Stores W')
    (count : ∀ k, s'.count k = W'.count k) (classes : W'.classes = W.classes)
    (lapsed : W'.lapsed = W.lapsed) : s'.Fits W' :=
  { stores with
    count
    classes := by rw [classes, same, h.classes]
    wraps := fun classed based nonNull => by
      rw [Session.wrapper, same] at based
      rw [classes] at classed
      exact lapsed ▸ h.wraps classed based nonNull
    resolves := fun {r u} known => by
      rw [Session.wrapper, same] at known ⊢
      exact h.resolves known
    lapsed := fun {i} hi => by
      rw [lapsed] at hi
      obtain ⟨classed, lapses⟩ := h.lapsed hi
      refine ⟨classes ▸ classed, ?_⟩
      rw [Session.Lapses, Session.wrapper, same]
      exact lapses }

/-! Changes of cells. -/

theorem putList (h : s.Fits W) (r : Ref .list) {c : List Value} (held : ∀ v ∈ c, v.Belongs W) :
    (s.putList r c).Fits W :=
  h.beside rfl { h.toStores with lists := h.lists.put r.index held }
    (fun k => by rw [← h.count k]; cases k <;> simp [Session.count, Session.putList]) rfl rfl

theorem putSet (h : s.Fits W) (r : Ref .set) {c : List Member}
    (held : ∀ m ∈ c, m.value.Belongs W) : (s.putSet r c).Fits W := by
  refine h.beside rfl { h.toStores with sets := h.sets.put r.index fun v hv => ?_ }
    (fun k => by rw [← h.count k]; cases k <;> simp [Session.count, Session.putSet]) rfl rfl
  obtain ⟨m, hm, rfl⟩ := List.mem_map.1 hv
  exact held m hm

theorem putDict (h : s.Fits W) (r : Ref .dict) {c : List Entry}
    (held : ∀ e ∈ c, e.key.Belongs W ∧ e.value.Belongs W) : (s.putDict r c).Fits W := by
  refine h.beside rfl { h.toStores with dicts := h.dicts.put r.index fun v hv => ?_ }
    (fun k => by rw [← h.count k]; cases k <;> simp [Session.count, Session.putDict]) rfl rfl
  obtain ⟨e, he, hv⟩ := List.mem_flatMap.1 hv
  simp only [Entry.contents, List.mem_cons, List.not_mem_nil, or_false] at hv
  rcases hv with rfl | rfl
  · exact (held e he).1
  · exact (held e he).2

theorem putNamedType (h : s.Fits W) (r : Ref .named) {c : NamedType}
    (held : ∀ v ∈ c.contents, v.Belongs W) : (s.putNamedType r c).Fits W :=
  h.beside rfl { h.toStores with namedTypes := h.namedTypes.put r.index held }
    (fun k => by rw [← h.count k]; cases k <;> simp [Session.count, Session.putNamedType]) rfl rfl

theorem putScalar (h : s.Fits W) (r : Ref .scalar) {c : ScalarType}
    (held : ∀ v ∈ c.holdings, v.Belongs W) : (s.putScalar r c).Fits W :=
  h.beside rfl { h.toStores with scalars := h.scalars.put r.index held }
    (fun k => by rw [← h.count k]; cases k <;> simp [Session.count, Session.putScalar]) rfl rfl

theorem putArgument (h : s.Fits W) (r : Ref .argument) {c : Argument}
    (held : ∀ v ∈ c.contents, v.Belongs W) : (s.putArgument r c).Fits W :=
  h.beside rfl { h.toStores with arguments := h.arguments.put r.index held }
    (fun k => by rw [← h.count k]; cases k <;> simp [Session.count, Session.putArgument]) rfl rfl

/-- A wrapping type may be changed as long as what is known about it stays true. -/
theorem putWrapper (h : s.Fits W) (r : Ref .wrapper) {c : WrappingType}
    (held : ∀ v ∈ c.contents, v.Belongs W)
    (wraps : W.classes[r.index]? = some .nonNull → ∀ t, c.source = some t → t.isNonNull = true →
      W.lapsed ≠ [])
    (resolves : ∀ u, c.resolved = some u → ∃ t, c.source = some t ∧ MayResolve t u)
    (lapsed : r.index ∈ W.lapsed → c.source = (s.wrapper r).source ∧
      c.resolved = (s.wrapper r).resolved) : (s.putWrapper r c).Fits W := by
  have cases (q : Ref .wrapper) : (s.putWrapper r c).wrapper q = s.wrapper q ∨
      q = r ∧ (s.putWrapper r c).wrapper q = c := by
    refine (s.wrappers.get_put_cases c r.index q.index).imp_right fun ⟨same, cell⟩ => ⟨?_, cell⟩
    cases q
    cases r
    exact congrArg Ref.mk same
  exact {
    h.toStores with
    wrappers := h.wrappers.put r.index held
    count := fun k => by rw [← h.count k]; cases k <;> simp [Session.count, Session.putWrapper]
    classes := by simp [Session.putWrapper, h.classes]
    wraps := fun {i t} classed based nonNull => by
      rcases cases ⟨i⟩ with old | ⟨rfl, new⟩
      · exact h.wraps classed (old ▸ based) nonNull
      · exact wraps classed t (new ▸ based) nonNull
    resolves := fun {q u} known => by
      rcases cases q with old | ⟨rfl, new⟩
      · rw [old] at known ⊢
        exact h.resolves known
      · rw [new] at known ⊢
        exact resolves u known
    lapsed := fun {i} hi => by
      obtain ⟨classed, d, t, based, known, nonNull⟩ := h.lapsed hi
      refine ⟨classed, ?_⟩
      rcases cases ⟨i⟩ with old | ⟨rfl, new⟩
      · exact ⟨d, t, old ▸ based, old ▸ known, nonNull⟩
      · obtain ⟨source, resolved⟩ := lapsed hi
        exact ⟨d, t, by rw [new, source, based], by rw [new, resolved, known], nonNull⟩ }

end Session.Fits

end DirectiveSchema

import DirectiveSchema.Proofs.CatchingUp
import DirectiveSchema.Proofs.Indifference
import Mathlib.Algebra.BigOperators.Group.Finset.Basic
import Mathlib.Algebra.Order.BigOperators.Group.Finset

/-!
What a session that is ahead has room for. It holds as much as the session behind, as deep and as
heavy, so a bound on nesting that fits it is the larger one. A session that is ahead of itself is
coherent: whatever it holds refers to what is in use, and all calls that it may make are quiet.
-/
namespace DirectiveSchema

open Pairing

variable {φ ψ : Pairing} {s t s' t' : Session} {k : CellKind} {i j : Nat} {v w : Value}

/-! ### What cells hold -/

theorem Arena.mem_flatMap_toList {α : Type} [Inhabited α] {a : Arena α} {f : α → List Value} :
    v ∈ a.toList.flatMap f ↔ ∃ i, i < a.size ∧ v ∈ f (a.get i) := by
  rw [List.mem_flatMap]
  constructor
  · rintro ⟨c, among, held⟩
    obtain ⟨i, live, rfl⟩ := List.mem_iff_getElem.1 among
    refine ⟨i, live, ?_⟩
    have live' : i < a.cells.size := live
    simpa [get, toList, Array.getD_eq_getD_getElem?, live'] using held
  · rintro ⟨i, live, held⟩
    exact ⟨_, a.get_mem_toList live, held⟩

theorem Arena.foldr_eq_sum {α : Type} [Inhabited α] (a : Arena α) (f : α → Nat) :
    a.toList.foldr (fun c n => f c + n) 0 = ∑ i ∈ Finset.range a.size, f (a.get i) := by
  have general (cs : List α) : cs.foldr (fun c n => f c + n) 0 =
      ∑ i ∈ Finset.range cs.length, f (cs.getD i default) := by
    induction cs with
    | nil => rfl
    | cons c cs ih =>
      rw [List.foldr_cons, ih, List.length_cons, Finset.sum_range_succ']
      simp [Nat.add_comm]
  rw [general]
  refine Finset.sum_congr (by simp [toList, size]) fun i _ => ?_
  simp [toList, get, Array.getD_eq_getD_getElem?]

namespace Session

theorem mem_contents : v ∈ s.contents ↔ ∃ k i, i < s.count k ∧ v ∈ (s.cell k i).contents := by
  have lists : v ∈ s.lists.toList.flatten ↔ v ∈ s.lists.toList.flatMap id := by
    rw [List.flatMap_id]
  simp only [contents, List.mem_append, lists, Arena.mem_flatMap_toList]
  constructor
  · rintro (((((((h | h) | h) | h) | h) | h) | h) | h)
    · exact ⟨.list, h⟩
    · exact ⟨.set, h⟩
    · exact ⟨.dict, h⟩
    · exact ⟨.named, h⟩
    · exact ⟨.scalar, h⟩
    · exact ⟨.wrapper, h⟩
    · exact ⟨.argument, h⟩
    · exact ⟨.directive, h⟩
  · rintro ⟨k, h⟩
    cases k with
    | list => exact .inl (.inl (.inl (.inl (.inl (.inl (.inl h))))))
    | set => exact .inl (.inl (.inl (.inl (.inl (.inl (.inr h))))))
    | dict => exact .inl (.inl (.inl (.inl (.inl (.inr h)))))
    | named => exact .inl (.inl (.inl (.inl (.inr h))))
    | scalar => exact .inl (.inl (.inl (.inr h)))
    | wrapper => exact .inl (.inl (.inr h))
    | argument => exact .inl (.inr h)
    | directive => exact .inr h

end Session

namespace Pairing

/-- Each of some data is paired with one of some others. -/
def Covers (φ : Pairing) (vs ws : List Value) : Prop := ∀ v ∈ vs, ∃ w ∈ ws, φ.Relates v w

namespace Covers

variable {us us' vs ws : List Value}

theorem append (h : φ.Covers us us') (h' : φ.Covers vs ws) : φ.Covers (us ++ vs) (us' ++ ws) :=
  fun v among => (List.mem_append.1 among).elim
    (fun first => let ⟨w, held, related⟩ := h v first
      ⟨w, List.mem_append_left _ held, related⟩)
    fun next => let ⟨w, held, related⟩ := h' v next
      ⟨w, List.mem_append_right _ held, related⟩

theorem of_all (h : φ.RelatesAll vs ws) : φ.Covers vs ws := by
  induction h with
  | nil => exact fun v among => absurd among List.not_mem_nil
  | cons first _ ih =>
    intro v among
    rcases List.mem_cons.1 among with rfl | among
    · exact ⟨_, List.mem_cons_self, first⟩
    · obtain ⟨w, held, related⟩ := ih v among
      exact ⟨w, List.mem_cons_of_mem _ held, related⟩

theorem of_parts {v w : Option Value} (h : φ.RelatesParts v w) :
    φ.Covers v.toList w.toList := by
  cases h with
  | none => exact of_all .nil
  | some related => exact of_all (.cons related .nil)

theorem of_informs {v w : Option Value} (h : φ.Informs v w) : φ.Covers v.toList w.toList := by
  intro x hx
  obtain ⟨y, known, related⟩ := h x (Option.mem_toList.1 hx)
  exact ⟨y, Option.mem_toList.2 known, related⟩

theorem of_attributes {as bs : List (String × Value)} (h : φ.RelatesAttributes as bs) :
    φ.Covers (as.map Prod.snd) (bs.map Prod.snd) :=
  of_all (List.forall₂_map_left_iff.2 (List.forall₂_map_right_iff.2 (h.imp fun _ _ p => p.2)))

end Covers

/-- Whatever a cell holds, the cell that is paired with it holds a datum that is paired with it. -/
theorem RelatesCells.covers {c c' : Cell} (h : φ.RelatesCells c c') :
    φ.Covers c.contents c'.contents := by
  cases h with
  | list h => exact .of_all h
  | set h =>
    exact .of_all (List.forall₂_map_left_iff.2 (List.forall₂_map_right_iff.2
      (h.imp fun _ _ member => member.value)))
  | dict h =>
    induction h with
    | nil => exact .of_all .nil
    | cons first _ ih => exact .append (.of_all (.cons first.key (.cons first.value .nil))) ih
  | named h => exact .append (.of_parts h.name) (.of_attributes h.extra)
  | scalar h =>
    exact .append (.append (.of_parts h.name) (.of_parts h.description)) (.of_attributes h.extra)
  | wrapper h =>
    exact .append (.append (.of_parts h.source) (.of_informs h.resolved)) (.of_attributes h.extra)
  | argument h =>
    exact .append (.append (.append (.append (.append (.of_parts h.name) (.of_parts h.description))
      (.of_parts h.hasDefault)) (.of_parts h.default))
      (.append (.of_all (.cons h.source .nil)) (.of_informs h.resolved))) (.of_attributes h.extra)
  | directive h =>
    exact .of_all (.cons h.name (.cons h.description (.cons h.locations (.cons h.args .nil))))

end Pairing

namespace Ahead

variable {home : Homes} (h : Ahead φ home s t)

include h

/-- What is counted in the first session is counted in the second one. -/
theorem sum_le {k : Option CellKind} {f g : Nat → Nat} (less : ∀ {i j}, φ k i j → f i ≤ g j) :
    ∑ i ∈ Finset.range (s.used k), f i ≤ ∑ j ∈ Finset.range (t.used k), g j := by
  choose! image paired using fun i (live : i < s.used k) => h.total live
  have injective : Set.InjOn image (Finset.range (s.used k)) := by
    intro i live i' live' same
    have first := paired i (Finset.mem_range.1 live)
    exact (h.one.iff first (paired i' (Finset.mem_range.1 live'))).2 same
  calc ∑ i ∈ Finset.range (s.used k), f i
      ≤ ∑ i ∈ Finset.range (s.used k), g (image i) :=
        Finset.sum_le_sum fun i live => less (paired i (Finset.mem_range.1 live))
    _ = ∑ j ∈ (Finset.range (s.used k)).image image, g j := (Finset.sum_image injective).symm
    _ ≤ ∑ j ∈ Finset.range (t.used k), g j := by
        refine Finset.sum_le_sum_of_subset fun j among => ?_
        obtain ⟨i, live, rfl⟩ := Finset.mem_image.1 among
        exact Finset.mem_range.2 (h.within (paired i (Finset.mem_range.1 live))).2

theorem used_le (k : Option CellKind) : s.used k ≤ t.used k := by
  have counted := h.sum_le (k := k) (f := fun _ => 1) (g := fun _ => 1) fun _ => Nat.le_refl 1
  simpa using counted

theorem depth_le : s.depth ≤ t.depth := by
  refine Value.depths_le fun v held => ?_
  obtain ⟨k, i, live, held⟩ := Session.mem_contents.1 held
  obtain ⟨j, paired⟩ := h.total (k := some k) live
  obtain ⟨w, held', related⟩ := (h.cells paired).covers v held
  rw [← related.depth_eq]
  exact Value.depth_le_depths (Session.mem_contents.2 ⟨k, j, (h.within paired).2, held'⟩)

theorem weight_le (k : CellKind) :
    ∑ i ∈ Finset.range (s.count k), (s.cell k i).weight ≤
      ∑ j ∈ Finset.range (t.count k), (t.cell k j).weight :=
  h.sum_le (k := some k) fun paired => Nat.le_of_eq (h.cells paired).weight_eq.symm

theorem bindings_weight_eq : t.bindings.foldr (fun p n => Session.sourceWeight p.2 + n) 0 =
    s.bindings.foldr (fun p n => Session.sourceWeight p.2 + n) 0 := by
  have bound := h.bindings
  generalize s.bindings = as at bound
  generalize t.bindings = bs at bound
  induction bound with
  | nil => rfl
  | cons first _ ih => rw [List.foldr_cons, List.foldr_cons, ih, first.2.weight_eq]

/-- A bound on nesting that fits the session ahead is the larger one. -/
theorem reach_le : s.reach ≤ t.reach := by
  have depth := h.depth_le
  have tags : s.nextTag ≤ t.nextTag := h.used_le none
  have lists : s.lists.size ≤ t.lists.size := h.used_le (some .list)
  have sets : s.sets.size ≤ t.sets.size := h.used_le (some .set)
  have dicts : s.dicts.size ≤ t.dicts.size := h.used_le (some .dict)
  have namedTypes : s.namedTypes.size ≤ t.namedTypes.size := h.used_le (some .named)
  have scalars : s.scalars.size ≤ t.scalars.size := h.used_le (some .scalar)
  have wrappers : s.wrappers.size ≤ t.wrappers.size := h.used_le (some .wrapper)
  have arguments : s.arguments.size ≤ t.arguments.size := h.used_le (some .argument)
  have directives : s.directives.size ≤ t.directives.size := h.used_le (some .directive)
  have sources : ∑ i ∈ Finset.range s.wrappers.size,
      (s.wrappers.get i).source.elim 0 Session.sourceWeight ≤
        ∑ j ∈ Finset.range t.wrappers.size,
          (t.wrappers.get j).source.elim 0 Session.sourceWeight := h.weight_le .wrapper
  have types : ∑ i ∈ Finset.range s.arguments.size,
      Session.sourceWeight (s.arguments.get i).source ≤
        ∑ j ∈ Finset.range t.arguments.size,
          Session.sourceWeight (t.arguments.get j).source := h.weight_le .argument
  have bound := h.bindings_weight_eq
  simp only [Session.reach, Arena.foldr_eq_sum, bound]
  omega

end Ahead

/-! ### Coherent sessions -/

namespace Session

/-- Whatever is in use stands for itself. -/
def identity (s : Session) : Pairing := fun k i j => i = j ∧ i < s.used k

/-- All that a session holds refers to what is in use, and all calls that it may make are quiet. -/
def Coherent (s : Session) : Prop := Ahead s.identity (fun _ _ => none) s s

end Session

/-- Nothing is pending in a session that is compared with itself. -/
theorem Session.Coherent.intro (empty : s.identity none 0 0)
    (scalars : ∀ {r}, BuiltIn.isScalar r = true → s.identity (some .scalar) r.index r.index)
    (bindings : s.identity.RelatesAttributes s.bindings s.bindings)
    (cells : ∀ {k i}, i < s.count k → s.identity.RelatesCells (s.cell k i) (s.cell k i)) :
    s.Coherent where
  one := ⟨fun paired paired' => by rw [paired.1, paired'.1]⟩
  total := fun live => ⟨_, rfl, live⟩
  within := fun paired => ⟨paired.2, paired.1 ▸ paired.2⟩
  empty := empty
  scalars := scalars
  bindings := bindings
  cells := fun paired => by
    obtain ⟨rfl, live⟩ := paired
    exact cells live
  late := fun paired unresolved resolved => by
    rw [← paired.1, unresolved] at resolved
    cases resolved
  housed := fun at' => by cases at'
  quiet := fun at' => by cases at'
  lateHoused := fun at' => by cases at'

/-- A session that another one is ahead of is coherent. -/
theorem Ahead.coherent {home : Homes} (h : Ahead φ home s t) : s.Coherent := by
  have own (k : Option CellKind) (i j : Nat) (paired : φ k i j) : s.identity k i i :=
    ⟨rfl, (h.within paired).1⟩
  refine .intro (own _ _ _ h.empty) (fun builtIn => own _ _ _ (h.scalars builtIn))
    (RelatesAttributes.left own h.bindings) fun {k i} live => ?_
  have used : i < s.used (some k) := live
  obtain ⟨j, paired⟩ := h.total used
  exact (h.cells paired).left own

/-- Some session is ahead of another, whatever is housed. -/
def Abreast (φ : Pairing) (s t : Session) : Prop := ∃ home, Ahead φ home s t

theorem Abreast.coherent (h : Abreast φ s t) : s.Coherent := h.elim fun _ ahead => ahead.coherent

theorem Session.Coherent.abreast (h : s.Coherent) : Abreast s.identity s s := ⟨_, h⟩

namespace Abreast

variable (h : Abreast φ s t)

include h

theorem one : φ.OneToOne := h.elim fun _ ahead => ahead.one

/-! Paired cells hold paired data. -/

theorem list {r r' : Ref .list} (paired : φ (some .list) r.index r'.index) :
    φ.RelatesAll (s.list r) (t.list r') := by
  obtain ⟨_, ahead⟩ := h
  cases ahead.cells paired with
  | list related => exact related

theorem set {r r' : Ref .set} (paired : φ (some .set) r.index r'.index) :
    φ.RelatesSets (s.set r) (t.set r') := by
  obtain ⟨_, ahead⟩ := h
  cases ahead.cells paired with
  | set related => exact related

theorem dict {r r' : Ref .dict} (paired : φ (some .dict) r.index r'.index) :
    φ.RelatesDicts (s.dict r) (t.dict r') := by
  obtain ⟨_, ahead⟩ := h
  cases ahead.cells paired with
  | dict related => exact related

theorem namedType {r r' : Ref .named} (paired : φ (some .named) r.index r'.index) :
    φ.RelatesNamed (s.namedType r) (t.namedType r') := by
  obtain ⟨_, ahead⟩ := h
  cases ahead.cells paired with
  | named related => exact related

theorem scalar {r r' : Ref .scalar} (paired : φ (some .scalar) r.index r'.index) :
    φ.RelatesScalars (s.scalar r) (t.scalar r') := by
  obtain ⟨_, ahead⟩ := h
  cases ahead.cells paired with
  | scalar related => exact related

theorem wrapper {r r' : Ref .wrapper} (paired : φ (some .wrapper) r.index r'.index) :
    φ.RelatesWrappers (s.wrapper r) (t.wrapper r') := by
  obtain ⟨_, ahead⟩ := h
  cases ahead.cells paired with
  | wrapper related => exact related

theorem argument {r r' : Ref .argument} (paired : φ (some .argument) r.index r'.index) :
    φ.RelatesArguments (s.argument r) (t.argument r') := by
  obtain ⟨_, ahead⟩ := h
  cases ahead.cells paired with
  | argument related => exact related

theorem directive {r r' : Ref .directive} (paired : φ (some .directive) r.index r'.index) :
    φ.RelatesDirectives (s.directive r) (t.directive r') := by
  obtain ⟨_, ahead⟩ := h
  cases ahead.cells paired with
  | directive related => exact related

end Abreast

end DirectiveSchema

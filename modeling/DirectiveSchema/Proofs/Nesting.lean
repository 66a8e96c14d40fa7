import DirectiveSchema.Proofs.Extension
import Mathlib.Data.List.Forall2
import Mathlib.Tactic.Linarith

/-!
What data are made of, and how deep they are nested. A datum that is not nested in itself has a
finite depth, which the number of objects in the session bounds: an object that is met again on the
way down would be nested in itself.
-/
namespace DirectiveSchema

variable {α : Type} {P Q : Session → Value → Prop} {s s' : Session} {v x : Value} {m n : Nat}

/-- What an object is made of. -/
inductive Body where
  | tuple (items : List Value)
  | config (name locations args description : Value)
  | list (items : List Value)
  | set (members : List Member)
  | dict (entries : List Entry)
  | wrapper (w : Wrapper) (c : WrappingType)
  | argument (c : Argument)
  | directive (d : Directive)

/-- The parts of an object, with types as they were resolved. -/
def Body.parts : Body → List Value
  | .tuple items | .list items => items
  | .config name locations args description => [name, locations, args, description]
  | .set members => members.map Member.value
  | .dict entries => entries.flatMap Entry.contents
  | .wrapper _ c => c.resolved.toList
  | .argument c =>
    c.name.toList ++ c.description.toList ++ c.hasDefault.toList ++ c.resolved.toList ++
      c.default.toList ++ c.extra.contents
  | .directive d => d.contents

/-- The cell at a position, if there is one. -/
def Arena.get? [Inhabited α] (a : Arena α) (i : Nat) : Option α :=
  if i < a.size then some (a.get i) else none

namespace Arena

variable [Inhabited α] {a : Arena α} {c : α} {i : Nat}

theorem get?_of_lt (h : i < a.size) : a.get? i = some (a.get i) := if_pos h

theorem get?_of_le (h : a.size ≤ i) : a.get? i = none := if_neg (Nat.not_lt_of_le h)

theorem get?_eq_some (h : a.get? i = some c) : i < a.size ∧ a.get i = c := by
  by_cases live : i < a.size
  · rw [get?_of_lt live] at h
    exact ⟨live, Option.some.inj h⟩
  · rw [get?_of_le (Nat.le_of_not_lt live)] at h
    cases h

theorem get?_of_isSome (h : (a.get? i).isSome = true) :
    i < a.size ∧ a.get? i = some (a.get i) := by
  obtain ⟨c, cell⟩ := Option.isSome_iff_exists.1 h
  obtain ⟨live, rfl⟩ := get?_eq_some cell
  exact ⟨live, cell⟩

theorem get?_add_self (a : Arena α) (c : α) : (a.add c).get? a.size = some c := by
  rw [get?_of_lt (by rw [size_add]; exact Nat.lt_succ_self _), get_add_self]

theorem get?_add_of_ne (a : Arena α) (c : α) (h : i ≠ a.size) : (a.add c).get? i = a.get? i := by
  rcases Nat.lt_or_gt_of_ne h with live | dead
  · rw [get?_of_lt live, get?_of_lt (by rw [size_add]; omega), get_add_of_lt a c live]
  · rw [get?_of_le (Nat.le_of_lt dead), get?_of_le (by rw [size_add]; omega)]

theorem Extends.get? {rel : α → α → Prop} {b : Arena α} (h : a.Extends rel b)
    (cell : a.get? i = some c) : ∃ c', b.get? i = some c' ∧ rel c c' := by
  obtain ⟨live, rfl⟩ := get?_eq_some cell
  exact ⟨b.get i, get?_of_lt (Nat.lt_of_lt_of_le live h.size), h.cell live⟩

theorem get?_put_self (h : i < a.size) : (a.put i c).get? i = some c := by
  rw [get?_of_lt (by rwa [size_put]), get_put_self a c h]

theorem get?_put_of_ne {j : Nat} (h : i ≠ j) : (a.put i c).get? j = a.get? j := by
  simp only [get?, size_put, get_put_of_ne a c h]

end Arena

namespace Session

/-- What a datum is made of in a session, if it is an object that exists. -/
def body? (s : Session) : Value → Option Body
  | .tuple _ items => some (.tuple items)
  | .config _ name locations args description => some (.config name locations args description)
  | .list r => (s.lists.get? r.index).map .list
  | .set r => (s.sets.get? r.index).map .set
  | .dict r => (s.dicts.get? r.index).map .dict
  | .wrapper w r => (s.wrappers.get? r.index).map (.wrapper w)
  | .argument r => (s.arguments.get? r.index).map .argument
  | .directive r => (s.directives.get? r.index).map .directive
  | _ => none

def parts (s : Session) (v : Value) : List Value := (s.body? v).elim [] Body.parts

theorem parts_of_body {b : Body} (h : s.body? v = some b) : s.parts v = b.parts := by
  simp only [parts, h, Option.elim]

theorem parts_of_none (h : s.body? v = none) : s.parts v = [] := by
  simp only [parts, h, Option.elim]

end Session

/-- A datum that is made of a body. -/
def Body.Makes (s : Session) (v : Value) : Body → Prop
  | .tuple items => ∃ tag, v = .tuple tag items
  | .config name locations args description =>
    ∃ tag, v = .config tag name locations args description
  | .list items => ∃ r, v = .list r ∧ r.index < s.lists.size ∧ s.list r = items
  | .set members => ∃ r, v = .set r ∧ r.index < s.sets.size ∧ s.set r = members
  | .dict entries => ∃ r, v = .dict r ∧ r.index < s.dicts.size ∧ s.dict r = entries
  | .wrapper w c => ∃ r, v = .wrapper w r ∧ r.index < s.wrappers.size ∧ s.wrapper r = c
  | .argument c => ∃ r, v = .argument r ∧ r.index < s.arguments.size ∧ s.argument r = c
  | .directive d => ∃ r, v = .directive r ∧ r.index < s.directives.size ∧ s.directive r = d

namespace Session

theorem makes_of_body {b : Body} (h : s.body? v = some b) : b.Makes s v := by
  cases v with
  | tuple tag =>
    cases h
    exact ⟨tag, rfl⟩
  | config tag =>
    cases h
    exact ⟨tag, rfl⟩
  | list r | set r | dict r | wrapper w r | argument r | directive r =>
    obtain ⟨c, cell, rfl⟩ := Option.map_eq_some_iff.1 h
    exact ⟨r, rfl, Arena.get?_eq_some cell⟩
  | _ => cases h

/-- A datum of at most the given nesting that satisfies a condition together with its parts,
whatever its parts may be. -/
def NestsBy (part : Value → Value → Prop) (holds : Value → Prop) : Nat → Value → Prop
  | 0, _ => False
  | n + 1, v => holds v ∧ ∀ x, part v x → NestsBy part holds n x

namespace NestsBy

variable {part : Value → Value → Prop} {holds : Value → Prop} {objects : List Value} {deep : Nat}

theorem mono (h : NestsBy part holds n v) (le : n ≤ m) : NestsBy part holds m v := by
  induction n generalizing m v with
  | zero => cases h
  | succ n ih =>
    obtain ⟨k, rfl⟩ : ∃ k, m = k + 1 := ⟨m - 1, by omega⟩
    exact ⟨h.1, fun x hx => ih (h.2 x hx) (by omega)⟩

/-- Below some objects, each nested deeper than the datum, only the others remain. -/
theorem below (h : NestsBy part holds n v)
    (parts : ∀ {v x}, part v x → x.depth + 1 ≤ v.depth ∨ v ∈ objects ∧ x.depth ≤ deep)
    (path : List Value) (nodup : path.Nodup) (among : path ⊆ objects)
    (above : ∀ p ∈ path, ¬NestsBy part holds n p) :
    NestsBy part holds ((objects.length - path.length) * (deep + 1) + v.depth + 1) v := by
  induction n using Nat.strongRecOn generalizing v path with
  | ind n ih =>
    obtain ⟨k, rfl⟩ : ∃ k, n = k + 1 := by
      cases n with
      | zero => cases h
      | succ k => exact ⟨k, rfl⟩
    have lower : ∀ p ∈ path, ¬NestsBy part holds k p := fun p hp deeper =>
      above p hp (deeper.mono (Nat.le_succ k))
    by_cases smaller : NestsBy part holds k v
    · exact ih k (Nat.lt_succ_self k) smaller path nodup among lower
    refine ⟨h.1, fun x hx => ?_⟩
    rcases parts hx with less | ⟨object, shallow⟩
    · exact (ih k (Nat.lt_succ_self k) (h.2 x hx) path nodup among lower).mono (by omega)
    -- The object joins those above: it cannot be among them, since it is nested less deep.
    · have fresh : v ∉ path := fun hv => above v hv h
      have nodup' : (v :: path).Nodup := List.nodup_cons.2 ⟨fresh, nodup⟩
      have among' : v :: path ⊆ objects := List.cons_subset.2 ⟨object, among⟩
      have room : (v :: path).length ≤ objects.length :=
        List.Nodup.length_le_of_subset nodup' among'
      have nested := ih k (Nat.lt_succ_self k) (h.2 x hx) (v :: path) nodup' among' fun p hp => by
        rcases List.mem_cons.1 hp with rfl | hp
        · exact smaller
        · exact lower p hp
      obtain ⟨left, count⟩ : ∃ left, objects.length = left + (path.length + 1) :=
        ⟨_, (Nat.sub_add_cancel room).symm⟩
      refine nested.mono ?_
      have rest : objects.length - (v :: path).length = left := by
        rw [count]
        exact Nat.add_sub_cancel _ _
      have more : objects.length - path.length = left + 1 := by omega
      rw [rest, more, Nat.succ_mul]
      omega

/-- Whatever is not nested in itself is nested no deeper than the objects that have parts allow. -/
theorem bounded (h : NestsBy part holds n v)
    (parts : ∀ {v x}, part v x → x.depth + 1 ≤ v.depth ∨ v ∈ objects ∧ x.depth ≤ deep) :
    NestsBy part holds (objects.length * (deep + 1) + v.depth + 1) v :=
  h.below parts [] List.nodup_nil (List.nil_subset _) fun _ hp => absurd hp List.not_mem_nil

end NestsBy

/-- A datum of at most the given nesting that satisfies a condition together with its parts. -/
def Nests (P : Session → Value → Prop) (s : Session) : Nat → Value → Prop
  | 0, _ => False
  | n + 1, v => P s v ∧ ∀ x ∈ s.parts v, s.Nests P n x

theorem nests_iff : s.Nests P n v ↔ NestsBy (fun v x => x ∈ s.parts v) (P s) n v := by
  induction n generalizing v with
  | zero => exact Iff.rfl
  | succ n ih => exact and_congr_right' (forall₂_congr fun _ _ => ih)

namespace Nests

theorem mono (h : s.Nests P n v) (le : n ≤ m) : s.Nests P m v :=
  nests_iff.2 ((nests_iff.1 h).mono le)

theorem holds (h : s.Nests P n v) : P s v := by
  cases n with
  | zero => cases h
  | succ n => exact h.1

theorem imp (h : s.Nests P n v) (weaker : ∀ v, P s v → Q s v) : s.Nests Q n v := by
  induction n generalizing v with
  | zero => cases h
  | succ n ih => exact ⟨weaker v h.1, fun x hx => ih (h.2 x hx)⟩

/-- In a session in which data satisfy the condition as well and have the same parts, they are
nested alike. -/
theorem congr (h : s.Nests P n v) (same : ∀ {v}, P s v → P s' v ∧ s'.parts v = s.parts v) :
    s'.Nests P m v ↔ s.Nests P m v := by
  induction n generalizing m v with
  | zero => cases h
  | succ n ih =>
    obtain ⟨holds, parts⟩ := same h.1
    cases m with
    | zero => exact Iff.rfl
    | succ m =>
      constructor
      · exact fun nests => ⟨h.1, fun x hx => (ih (h.2 x hx)).1 (nests.2 x (parts ▸ hx))⟩
      · intro nests
        refine ⟨holds, fun x hx => ?_⟩
        rw [parts] at hx
        exact (ih (h.2 x hx)).2 (nests.2 x hx)

/-- A datum has a least nesting. -/
theorem least (h : s.Nests P n v) : ∃ k < n, s.Nests P (k + 1) v ∧ ¬s.Nests P k v := by
  induction n with
  | zero => cases h
  | succ n ih =>
    by_cases smaller : s.Nests P n v
    · obtain ⟨k, lt, least⟩ := ih smaller
      exact ⟨k, Nat.lt_succ_of_lt lt, least⟩
    · exact ⟨n, Nat.lt_succ_self n, h, smaller⟩

/-- Finitely many data have a common nesting. -/
theorem all {vs : List Value} (h : ∀ v ∈ vs, ∃ n, s.Nests P n v) :
    ∃ n, ∀ v ∈ vs, s.Nests P n v := by
  induction vs with
  | nil => exact ⟨0, fun v hv => nomatch hv⟩
  | cons u vs ih =>
    obtain ⟨n, hn⟩ := h u List.mem_cons_self
    obtain ⟨m, hm⟩ := ih fun v hv => h v (List.mem_cons_of_mem u hv)
    refine ⟨max n m, fun v hv => ?_⟩
    rcases List.mem_cons.1 hv with rfl | hv
    · exact hn.mono (Nat.le_max_left n m)
    · exact (hm v hv).mono (Nat.le_max_right n m)

end Nests

/-! ### A bound on nesting -/

/-- The references to the first cells of a kind. -/
def references (kind : CellKind) (size : Nat) : List (Ref kind) := (List.range size).map Ref.mk

theorem mem_references {kind : CellKind} {size : Nat} {r : Ref kind} :
    r ∈ references kind size ↔ r.index < size := by
  constructor
  · intro h
    obtain ⟨i, hi, rfl⟩ := List.mem_map.1 h
    exact List.mem_range.1 hi
  · exact fun h => List.mem_map.2 ⟨r.index, List.mem_range.2 h, rfl⟩

/-- The objects of a session that may hold others. A wrapper may be of any kind. -/
def objects (s : Session) : List Value :=
  (references .list s.lists.size).map .list ++ (references .set s.sets.size).map .set ++
    (references .dict s.dicts.size).map .dict ++
    (references .wrapper s.wrappers.size).map (.wrapper .list) ++
    (references .wrapper s.wrappers.size).map (.wrapper .nonNull) ++
    (references .wrapper s.wrappers.size).map (.wrapper .plain) ++
    (references .argument s.arguments.size).map .argument ++
    (references .directive s.directives.size).map .directive

theorem length_objects (s : Session) : s.objects.length =
    s.lists.size + s.sets.size + s.dicts.size + 3 * s.wrappers.size + s.arguments.size +
      s.directives.size := by
  simp only [objects, references, List.length_append, List.length_map, List.length_range]
  omega

/-- Parts of a tuple or of a record are less deep than it is; any other object that has parts is
among the objects of the session, and its parts are among the contents. -/
theorem parts_cases (hx : x ∈ s.parts v) :
    x.depth + 1 ≤ v.depth ∨ v ∈ s.objects ∧ x ∈ s.contents := by
  cases body : s.body? v with
  | none =>
    rw [parts_of_none body] at hx
    cases hx
  | some b =>
    rw [parts_of_body body] at hx
    have made := makes_of_body body
    simp only [objects, contents, List.mem_append, List.mem_flatMap, List.mem_flatten]
    cases b with
    | tuple items =>
      obtain ⟨tag, rfl⟩ := made
      exact .inl (Nat.succ_le_succ (Value.depth_le_depths hx))
    | config name locations args description =>
      obtain ⟨tag, rfl⟩ := made
      left
      simp only [Body.parts, List.mem_cons, List.not_mem_nil, or_false] at hx
      simp only [Value.depth]
      rcases hx with rfl | rfl | rfl | rfl <;> omega
    | list items =>
      obtain ⟨r, rfl, live, rfl⟩ := made
      have found := s.lists.get_mem_toList live
      refine .inr ⟨by simp [mem_references, live], ?_⟩
      exact .inl (.inl (.inl (.inl (.inl (.inl (.inl ⟨_, found, hx⟩))))))
    | set members =>
      obtain ⟨r, rfl, live, rfl⟩ := made
      have found := s.sets.get_mem_toList live
      refine .inr ⟨by simp [mem_references, live], ?_⟩
      exact .inl (.inl (.inl (.inl (.inl (.inl (.inr ⟨_, found, hx⟩))))))
    | dict entries =>
      obtain ⟨r, rfl, live, rfl⟩ := made
      have found := s.dicts.get_mem_toList live
      refine .inr ⟨by simp [mem_references, live], ?_⟩
      exact .inl (.inl (.inl (.inl (.inl (.inr ⟨_, found, List.mem_flatMap.1 hx⟩)))))
    | wrapper w c =>
      obtain ⟨r, rfl, live, rfl⟩ := made
      have found := s.wrappers.get_mem_toList live
      refine .inr ⟨by cases w <;> simp [mem_references, live], .inl (.inl (.inr ⟨_, found, ?_⟩))⟩
      exact List.mem_append_left _ (List.mem_append_right _ hx)
    | argument c =>
      obtain ⟨r, rfl, live, rfl⟩ := made
      have found := s.arguments.get_mem_toList live
      refine .inr ⟨by simp [mem_references, live], .inl (.inr ⟨_, found, ?_⟩)⟩
      simp only [Body.parts, List.mem_append] at hx
      simp only [Argument.contents, List.mem_append, List.mem_cons]
      rcases hx with ((((hx | hx) | hx) | hx) | hx) | hx
      · exact .inl (.inl (.inl (.inl (.inl hx))))
      · exact .inl (.inl (.inl (.inl (.inr hx))))
      · exact .inl (.inl (.inl (.inr hx)))
      · exact .inl (.inr (.inr hx))
      · exact .inl (.inl (.inr hx))
      · exact .inr hx
    | directive d =>
      obtain ⟨r, rfl, live, rfl⟩ := made
      have found := s.directives.get_mem_toList live
      exact .inr ⟨by simp [mem_references, live], .inr ⟨_, found, hx⟩⟩

/-- Whatever is not nested in itself is nested no deeper than the objects allow. -/
theorem Nests.bounded (h : s.Nests P n v) :
    s.Nests P (s.objects.length * (s.depth + 1) + v.depth + 1) v :=
  nests_iff.2 ((nests_iff.1 h).bounded fun hx =>
    (parts_cases hx).imp_right fun among => ⟨among.1, Value.depth_le_depths among.2⟩)

theorem objects_add_depth_le_reach (s : Session) :
    s.lists.size + s.sets.size + s.dicts.size + s.wrappers.size + s.arguments.size +
      s.directives.size + s.depth ≤ s.reach := by
  unfold reach
  omega

/-- The bound of a walk that meets no pair twice is enough for any nesting. -/
theorem bound_le (s : Session) (d : Nat) :
    s.objects.length * (s.depth + 1) + d + 1 ≤ (s.reach + d + 1) * (s.reach + d + 1) := by
  have few := objects_add_depth_le_reach s
  rw [length_objects]
  generalize s.depth = e at few ⊢
  generalize s.reach = k at few ⊢
  obtain ⟨M, hM⟩ : ∃ M, M + e = k := ⟨k - e, by omega⟩
  have count : s.lists.size + s.sets.size + s.dicts.size + 3 * s.wrappers.size +
      s.arguments.size + s.directives.size ≤ 3 * M := by omega
  have step := Nat.mul_le_mul_right (e + 1) count
  subst hM
  nlinarith [sq_nonneg ((M : Int) - e - 1)]

theorem mem_contents_of_argument {q : Ref .argument} (live : q.index < s.arguments.size)
    (hx : x ∈ (s.argument q).contents) : x ∈ s.contents := by
  have cell := s.arguments.get_mem_toList live
  simp only [contents, List.mem_append]
  exact .inl (.inr (List.mem_flatMap.2 ⟨_, cell, hx⟩))

theorem mem_contents_of_wrapper {r : Ref .wrapper} (live : r.index < s.wrappers.size)
    (hx : x ∈ (s.wrapper r).contents) : x ∈ s.contents := by
  have cell := s.wrappers.get_mem_toList live
  simp only [contents, List.mem_append]
  exact .inl (.inl (.inr (List.mem_flatMap.2 ⟨_, cell, hx⟩)))

/-- The deepest nesting of anything that the cells of a session hold, unless it runs in a circle. -/
def extent (s : Session) : Nat := s.objects.length * (s.depth + 1) + s.depth + 1

theorem Nests.extent (h : s.Nests P n v) (shallow : v.depth ≤ s.depth) :
    s.Nests P s.extent v := by
  refine h.bounded.mono ?_
  unfold Session.extent
  omega

/-- The bound of a walk leaves room for an argument. -/
theorem extent_add_one_le {q : Ref .argument} (live : q.index < s.arguments.size) :
    s.extent + 1 ≤ (s.reach + 1) * (s.reach + 1) := by
  have few := objects_add_depth_le_reach s
  rw [extent, length_objects]
  generalize s.depth = e at few ⊢
  generalize s.reach = k at few ⊢
  obtain ⟨M, cells⟩ : ∃ M, M + e = k := ⟨k - e, by omega⟩
  have count : s.lists.size + s.sets.size + s.dicts.size + 3 * s.wrappers.size +
      s.arguments.size + s.directives.size + 2 ≤ 3 * M := by omega
  have step := Nat.mul_le_mul_right (e + 1) count
  subst cells
  nlinarith [sq_nonneg (2 * (M : Int) - e - 1)]

end Session

/-! ### A bound in later sessions -/

theorem exists_right {β γ : Type} {T : β → γ → Prop} {xs : List β} {ys : List γ}
    (h : List.Forall₂ T xs ys) {a : β} (ha : a ∈ xs) : ∃ b ∈ ys, T a b := by
  induction h with
  | nil => cases ha
  | cons first _ ih =>
    rcases List.mem_cons.1 ha with rfl | ha
    · exact ⟨_, List.mem_cons_self, first⟩
    · obtain ⟨b, hb, related⟩ := ih ha
      exact ⟨b, List.mem_cons_of_mem _ hb, related⟩

theorem Value.depths_mono {vs ws : List Value} (h : vs ⊆ ws) :
    Value.depths vs ≤ Value.depths ws := by
  induction vs with
  | nil => exact Nat.zero_le _
  | cons v vs ih =>
    rw [List.cons_subset] at h
    exact Nat.max_le.2 ⟨Value.depth_le_depths h.1, ih h.2⟩

namespace Arena.Extends

variable {α β : Type} [Inhabited α] {rel : α → α → Prop} {a b : Arena α}

/-- The cells of an arena, each in what it became, are the first ones of the other. -/
theorem initial (h : a.Extends rel b) :
    ∃ first rest, b.toList = first ++ rest ∧ List.Forall₂ rel a.toList first := by
  refine ⟨b.toList.take a.size, b.toList.drop a.size, (List.take_append_drop _ _).symm, ?_⟩
  have size := h.size
  refine List.forall₂_iff_get.2 ⟨?_, fun i hi hi' => ?_⟩
  · simp only [toList, Arena.size, List.length_take, Array.length_toList] at size ⊢
    omega
  · have old : i < a.cells.size := by simpa [toList] using hi
    have live : i < b.cells.size := Nat.lt_of_lt_of_le old size
    simpa [Arena.get, toList, Array.getD_eq_getD_getElem?, live, old] using h.cell old

theorem exists_cell (h : a.Extends rel b) {c : α} (hc : c ∈ a.toList) :
    ∃ c' ∈ b.toList, rel c c' := by
  obtain ⟨first, rest, split, related⟩ := h.initial
  obtain ⟨c', hc', became⟩ := exists_right related hc
  exact ⟨c', split ▸ List.mem_append_left rest hc', became⟩

theorem flatMap_subset {f : α → List β} (h : a.Extends rel b)
    (more : ∀ {c c'}, rel c c' → f c ⊆ f c') : a.toList.flatMap f ⊆ b.toList.flatMap f := by
  intro x hx
  obtain ⟨c, hc, hx⟩ := List.mem_flatMap.1 hx
  obtain ⟨c', hc', became⟩ := h.exists_cell hc
  exact List.mem_flatMap.2 ⟨c', hc', more became hx⟩

theorem sum_le {f : α → Nat} (h : a.Extends rel b) (less : ∀ {c c'}, rel c c' → f c ≤ f c') :
    a.toList.foldr (fun c n => f c + n) 0 ≤ b.toList.foldr (fun c n => f c + n) 0 := by
  obtain ⟨first, rest, split, related⟩ := h.initial
  rw [split, List.foldr_append]
  generalize a.toList = cells at related
  clear split
  induction related with
  | nil => exact Nat.zero_le _
  | cons head _ ih => exact Nat.add_le_add (less head) ih

end Arena.Extends

theorem WrappingType.Settles.contents {c c' : WrappingType} (h : c.Settles c') :
    c.contents ⊆ c'.contents := by
  intro x hx
  simp only [WrappingType.contents, List.mem_append, h.source, h.extra] at hx ⊢
  refine hx.imp_left fun hx => hx.imp_right fun hx => ?_
  rw [h.resolved (Option.mem_toList.1 hx)]
  exact List.mem_singleton_self x

theorem Argument.Settles.contents {c c' : Argument} (h : c.Settles c') :
    c.contents ⊆ c'.contents := by
  intro x hx
  simp only [Argument.contents, List.mem_append, List.mem_cons, h.name, h.description,
    h.hasDefault, h.default, h.source, h.extra] at hx ⊢
  refine hx.imp_left fun hx => hx.imp_right fun hx => hx.imp_right fun hx => ?_
  rw [h.resolved (Option.mem_toList.1 hx)]
  exact List.mem_singleton_self x

namespace Session.Extends

variable {s u : Session}

theorem contents (h : s.Extends u) : s.contents ⊆ u.contents := by
  have same {α : Type} {f : α → List Value} {c c' : α} (h : c = c') : f c ⊆ f c' :=
    h ▸ List.Subset.refl _
  intro x hx
  simp only [Session.contents, List.mem_append, ← List.flatMap_id] at hx ⊢
  refine hx.imp (fun hx => ?_) fun hx => h.directives.flatMap_subset same hx
  refine hx.imp (fun hx => ?_) fun hx =>
    h.arguments.flatMap_subset Argument.Settles.contents hx
  refine hx.imp (fun hx => ?_) fun hx =>
    h.wrappers.flatMap_subset WrappingType.Settles.contents hx
  refine hx.imp (fun hx => ?_) fun hx => h.scalars.flatMap_subset same hx
  refine hx.imp (fun hx => ?_) fun hx => h.namedTypes.flatMap_subset same hx
  refine hx.imp (fun hx => ?_) fun hx => h.dicts.flatMap_subset same hx
  refine hx.imp (fun hx => ?_) fun hx => h.sets.flatMap_subset same hx
  exact h.lists.flatMap_subset same hx

/-- A bound on nesting leaves room in later sessions. -/
theorem reach_le (h : s.Extends u) : s.reach ≤ u.reach := by
  have deep : s.depth ≤ u.depth := Value.depths_mono h.contents
  have wrappers := h.wrappers.sum_le (f := fun c => c.source.elim 0 sourceWeight) fun settles => by
    simp only [settles.source, Nat.le_refl]
  have arguments := h.arguments.sum_le (f := fun c => sourceWeight c.source) fun settles => by
    simp only [settles.source, Nat.le_refl]
  have := h.lists.size
  have := h.sets.size
  have := h.dicts.size
  have := h.namedTypes.size
  have := h.scalars.size
  have := h.wrappers.size
  have := h.arguments.size
  have := h.directives.size
  have := h.nextTag
  simp only [reach, h.bindings]
  omega

end Session.Extends

end DirectiveSchema

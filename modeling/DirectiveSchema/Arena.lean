/-!
An arena holds cells that are added one after the other and never removed. A cell is read and
changed by its position; a position beyond the last cell reads as the default cell.
-/
namespace DirectiveSchema

structure Arena (α : Type) where
  cells : Array α

namespace Arena

variable {α : Type}

def ofList (cs : List α) : Arena α := ⟨cs.toArray⟩

instance : Inhabited (Arena α) := ⟨ofList []⟩

def size (a : Arena α) : Nat := a.cells.size

def get [Inhabited α] (a : Arena α) (i : Nat) : α := a.cells.getD i default

def add (a : Arena α) (c : α) : Arena α := ⟨a.cells.push c⟩

def put (a : Arena α) (i : Nat) (c : α) : Arena α := ⟨a.cells.setIfInBounds i c⟩

def toList (a : Arena α) : List α := a.cells.toList

@[simp] theorem size_add (a : Arena α) (c : α) : (a.add c).size = a.size + 1 := by
  simp [size, add]

@[simp] theorem size_put (a : Arena α) (i : Nat) (c : α) : (a.put i c).size = a.size := by
  simp [size, put]

variable [Inhabited α]

@[simp] theorem get_add_self (a : Arena α) (c : α) : (a.add c).get a.size = c := by
  simp [get, add, size, Array.getD_eq_getD_getElem?]

theorem get_add_of_lt (a : Arena α) (c : α) {i : Nat} (h : i < a.size) :
    (a.add c).get i = a.get i := by
  have hi : i ≠ a.cells.size := Nat.ne_of_lt h
  simp [get, add, Array.getD_eq_getD_getElem?, Array.getElem?_push, hi]

theorem get_put_self (a : Arena α) (c : α) {i : Nat} (h : i < a.size) : (a.put i c).get i = c := by
  have hi : i < a.cells.size := h
  simp [get, put, Array.getD_eq_getD_getElem?, hi]

theorem get_put_of_ne (a : Arena α) (c : α) {i j : Nat} (h : i ≠ j) :
    (a.put i c).get j = a.get j := by
  simp [get, put, Array.getD_eq_getD_getElem?, Array.getElem?_setIfInBounds_ne h]

theorem get_of_le {a : Arena α} {i : Nat} (h : a.size ≤ i) : a.get i = default := by
  have outside : a.cells.size ≤ i := h
  simp [get, Array.getD_eq_getD_getElem?, outside]

/-- To put back what is there changes nothing. -/
@[simp] theorem put_get (a : Arena α) (i : Nat) : a.put i (a.get i) = a := by
  obtain ⟨cells⟩ := a
  simp only [put, get, mk.injEq]
  refine Array.ext (by simp) fun j hj hj' => ?_
  rw [Array.getElem_setIfInBounds]
  split
  · next hij => simp [← hij, Array.getD_eq_getD_getElem?, hij ▸ hj']
  · rfl

theorem get_mem_toList (a : Arena α) {i : Nat} (h : i < a.size) : a.get i ∈ a.toList := by
  have hi : i < a.cells.size := h
  simp [get, toList, Array.getD_eq_getD_getElem?, hi]

/-- Every cell has its place in the other arena, and became what it is related to. -/
structure Extends (rel : α → α → Prop) (a b : Arena α) : Prop where
  size : a.size ≤ b.size
  cell {i : Nat} : i < a.size → rel (a.get i) (b.get i)

namespace Extends

variable {rel : α → α → Prop} {a b c : Arena α}

theorem refl (hr : ∀ x, rel x x) (a : Arena α) : a.Extends rel a := ⟨Nat.le_refl _, fun _ => hr _⟩

theorem trans (ht : ∀ {x y z}, rel x y → rel y z → rel x z) (h : a.Extends rel b)
    (h' : b.Extends rel c) : a.Extends rel c where
  size := Nat.le_trans h.size h'.size
  cell hi := ht (h.cell hi) (h'.cell (Nat.lt_of_lt_of_le hi h.size))

theorem add (hr : ∀ x, rel x x) (a : Arena α) (x : α) : a.Extends rel (a.add x) where
  size := by rw [size_add]; exact Nat.le_succ _
  cell hi := by rw [get_add_of_lt a x hi]; exact hr _

/-- A cell that was changed has to be related to what it was at first. -/
theorem put (h : a.Extends rel b) {i : Nat} {x : α} (hx : i < a.size → rel (a.get i) x) :
    a.Extends rel (b.put i x) where
  size := by rw [size_put]; exact h.size
  cell {j} hj := by
    by_cases hij : i = j
    · subst hij
      rw [get_put_self b x (Nat.lt_of_lt_of_le hj h.size)]
      exact hx hj
    · rw [get_put_of_ne b x hij]
      exact h.cell hj

end Extends

end Arena

end DirectiveSchema

import DirectiveSchema.Proofs.Census
import DirectiveSchema.Proofs.Concord

/-!
What remains of data, of types and of arguments while new objects are made and filled. Types and
arguments are nodes: they are known by the cells that they refer to. Simple data that are twins
remain so, whatever becomes of nodes.
-/
namespace DirectiveSchema

variable {s t t' t'' u : Session} {v x y : Value} {n : Nat}

/-- What a type or an argument is made of. -/
inductive Node where
  | named (c : NamedType)
  | scalar (c : ScalarType)
  | wrapper (w : Wrapper) (c : WrappingType)
  | argument (c : Argument)

/-- Whether a cell holds a type that is not built in, or an argument. -/
def CellKind.isNode : CellKind → Nat → Bool
  | .named, _ | .wrapper, _ | .argument, _ => true
  | .scalar, i => !BuiltIn.isScalar ⟨i⟩
  | _, _ => false

/-- Types that are not built in, and arguments. -/
def Value.isNode (v : Value) : Bool := v.cell?.any fun cell => cell.1.isNode cell.2

theorem Value.isNode_of_cell? (h : x.cell? = v.cell?) : x.isNode = v.isNode := by
  rw [isNode, isNode, h]

namespace Session

/-- The node that a datum stands for in a session, if it exists. -/
def node? (s : Session) : Value → Option Node
  | .named r => (s.namedTypes.get? r.index).map .named
  | .scalar r => (s.scalars.get? r.index).map .scalar
  | .wrapper w r => (s.wrappers.get? r.index).map (.wrapper w)
  | .argument q => (s.arguments.get? q.index).map .argument
  | _ => none

/-- Simple data that are twins. -/
def IsTwin (s : Session) (x y : Value) : Prop := ∃ n, s.Twin n x y

theorem node?_of_body? (node : v.isNode = true) (h : (s.body? v).isSome = true) :
    (s.node? v).isSome = true := by
  cases v with
  | wrapper w r | argument r => simpa [body?, node?] using h
  | named | scalar => cases h
  | _ => cases node

theorem node?_of_wrapper {w : Wrapper} {r : Ref .wrapper} {c : WrappingType}
    (h : s.body? (.wrapper w r) = some (.wrapper w c)) :
    s.node? (.wrapper w r) = some (.wrapper w c) := by
  obtain ⟨_, cell, ⟨⟩⟩ := Option.map_eq_some_iff.1 h
  exact congrArg (Option.map (Node.wrapper w)) cell

theorem node?_of_argument {q : Ref .argument} {c : Argument}
    (h : s.body? (.argument q) = some (.argument c)) :
    s.node? (.argument q) = some (.argument c) := by
  obtain ⟨_, cell, ⟨⟩⟩ := Option.map_eq_some_iff.1 h
  exact congrArg (Option.map Node.argument) cell

/-- A node exists under any name of its cell, or under none. -/
theorem node?_isSome_of_cell? (same : x.cell? = v.cell?) (h : (s.node? x).isSome = true) :
    (s.node? v).isSome = true := by
  cases x <;> try cases h
  all_goals
    cases v <;> try cases same
    simp only [Value.cell?, Option.some.injEq, Prod.mk.injEq, true_and] at same
    simpa [node?, same] using h

/-- A type that wraps nothing is the same in later sessions. -/
theorem Extends.node?_single {b : Node} (h : s.Extends u) (single : v.isTyped = false)
    (node : s.node? v = some b) : u.node? v = some b := by
  cases v with
  | named r =>
    obtain ⟨c, cell, rfl⟩ := Option.map_eq_some_iff.1 node
    obtain ⟨_, cell', rfl⟩ := h.namedTypes.get? cell
    exact congrArg (Option.map Node.named) cell'
  | scalar r =>
    obtain ⟨c, cell, rfl⟩ := Option.map_eq_some_iff.1 node
    obtain ⟨_, cell', rfl⟩ := h.scalars.get? cell
    exact congrArg (Option.map Node.scalar) cell'
  | wrapper | argument => cases single
  | _ => cases node

/-! ### Data that are left alone -/

/-- Objects that are made of plain data stay what they are. -/
def Retains (t t' : Session) : Prop :=
  ∀ v b, b.isData = true → t.body? v = some b → t'.body? v = some b

/-- Whatever exists stays what it is. -/
structure Remains (t t' : Session) : Prop where
  objects : t.Agrees [] t'
  nodes {v : Value} {b : Node} : t.node? v = some b → t'.node? v = some b

namespace Retains

theorem simple (h : t.Retains t') (nests : t.Nests Simple n v) : t'.Nests Simple n v := by
  refine (nests.congr fun {v} simple => ?_).2 nests
  have same : t'.body? v = t.body? v := by
    have plain := simple.1
    cases body : t.body? v with
    | none =>
      rw [Plain, body] at plain
      exact body?_of_isAtom plain t'
    | some b =>
      rw [Plain, body] at plain
      exact h v b plain.1 body
  refine ⟨⟨?_, simple.2⟩, by rw [parts, parts, same]⟩
  have plain := simple.1
  rwa [Plain, same]

theorem alike (h : t.Retains t') (left : t.Nests Simple n x) (right : t.Nests Simple n y)
    (like : t.Alike n x y) : t'.Alike n x y := by
  induction n generalizing x y with
  | zero => cases like
  | succ n ih =>
    rcases like with same | ⟨b, c, body, body', fits, parts⟩
    · exact .inl same
    · have data : b.isData = true := by
        have plain := left.1.1
        rw [Plain, body] at plain
        exact plain.1
      refine .inr ⟨b, c, h x b data body, h y c (fits.isData_eq ▸ data) body', fits, ?_⟩
      have related := List.forall₂_iff_get.1 parts
      refine List.forall₂_iff_get.2 ⟨related.1, fun i hi hi' => ?_⟩
      refine ih (left.2 _ ?_) (right.2 _ ?_) (related.2 i hi hi')
      · rw [parts_of_body body]
        exact List.get_mem _ _
      · rw [parts_of_body body']
        exact List.get_mem _ _

theorem twin (h : t.Retains t') (twin : t.Twin n x y) : t'.Twin n x y :=
  ⟨h.alike twin.left twin.right twin.like, h.simple twin.left, h.simple twin.right⟩

theorem isTwin (h : t.Retains t') : t.IsTwin x y → t'.IsTwin x y :=
  fun ⟨n, twin⟩ => ⟨n, h.twin twin⟩

end Retains

namespace Remains

theorem refl (t : Session) : t.Remains t := ⟨.refl [] t, id⟩

theorem trans (h : t.Remains t') (h' : t'.Remains t'') : t.Remains t'' :=
  ⟨h.objects.trans h'.objects, fun node => h'.nodes (h.nodes node)⟩

theorem retains (h : t.Remains t') : t.Retains t' :=
  fun v b _ body => h.objects v b List.not_mem_nil body

theorem isTwin (h : t.Remains t') (twin : t.IsTwin x y) : t'.IsTwin x y := h.retains.isTwin twin

/-- What is added, and what objects keep, leaves all that exists as it is. -/
theorem of_extends (agrees : t.Agrees [] t') (h : t.Extends t') : t.Remains t' where
  objects := agrees
  nodes {v b} node := by
    cases v with
    | named | scalar => exact h.node?_single rfl node
    | wrapper w r =>
      obtain ⟨c, cell, rfl⟩ := Option.map_eq_some_iff.1 node
      exact node?_of_wrapper (agrees _ _ List.not_mem_nil (congrArg (Option.map _) cell))
    | argument q =>
      obtain ⟨c, cell, rfl⟩ := Option.map_eq_some_iff.1 node
      exact node?_of_argument (agrees _ _ List.not_mem_nil (congrArg (Option.map _) cell))
    | _ => cases node

end Remains

/-! ### Simple data in later sessions -/

/-- Data that satisfy two conditions are nested alike under both. -/
theorem Nests.within {P Q : Session → Value → Prop} {m : Nat} (h : s.Nests P n v)
    (deep : s.Nests Q m v) : s.Nests P m v := by
  induction m generalizing n v with
  | zero => cases deep
  | succ m ih =>
    cases n with
    | zero => cases h
    | succ n => exact ⟨h.1, fun w hw => ih (h.2 w hw) (deep.2 w hw)⟩

theorem Simple.isNode_eq (h : s.Simple v) : v.isNode = false := by
  cases v with
  | wrapper w r | argument r =>
    have plain := h.1
    rw [Plain] at plain
    split at plain
    · cases plain
    · rename_i b body
      obtain ⟨c, -, rfl⟩ := Option.map_eq_some_iff.1 body
      cases plain.1
  | named =>
    have plain : (Value.named _).isAtom = true := h.1
    cases plain
  | scalar => cases h.2
  | _ => rfl

theorem IsSimple.isNode_eq (h : s.IsSimple v) : v.isNode = false := by
  obtain ⟨n, nests⟩ := h
  exact nests.holds.isNode_eq

theorem IsSimple.isScalar_eq (h : s.IsSimple v) : v.isScalar = false := by
  obtain ⟨n, nests⟩ := h
  exact nests.holds.2

theorem IsSimple.isDirective_eq (h : s.IsSimple v) : v.isDirective = false := by
  obtain ⟨n, nests⟩ := h
  exact nests.holds.isDirective

theorem isSimple_of_isAtom (atom : v.isAtom = true) (single : v.isScalar = false) :
    s.IsSimple v := ⟨1, .of_isAtom atom ⟨plain_of_isAtom atom, single⟩ 0⟩

theorem Extends.retains (h : s.Extends u) : s.Retains u := fun _ _ data body =>
  h.body_data body data

theorem Extends.simple (h : s.Extends u) (nests : s.Nests Simple n v) : u.Nests Simple n v :=
  h.retains.simple nests

theorem Extends.isSimple (h : s.Extends u) : s.IsSimple v → u.IsSimple v :=
  fun ⟨n, nests⟩ => ⟨n, h.simple nests⟩

theorem IsSimple.isPlain (h : s.IsSimple v) : s.IsPlain v := by
  obtain ⟨n, nests⟩ := h
  exact ⟨n, nests.plain⟩

end Session

/-- Simple data, a grade of what is sound. -/
def Grade.simple : Grade where
  holds := Session.Simple
  isSound h := h.1.isSound

end DirectiveSchema

import DirectiveSchema.Proofs.Settled
import Mathlib.Data.Multiset.MapFold

/-!
What comparisons see of data. The surface of a datum is a layer over its parts: a face if it has
none, and else what kind of object it is; elements of sets and entries of dictionaries are in no
order. Layer by layer this makes up the shape of a datum, in which it does not show how it is
stored. Shapes that are equal remain so, whatever is observed.
-/
namespace DirectiveSchema

/-! ### Numbers -/

namespace Binary64

theorem natAbs_signedSteps (neg : Bool) (s : Nat) : (signedSteps neg s).natAbs = s := by
  cases neg <;> simp [signedSteps]

theorem signedSteps_mul (neg : Bool) (q k : Nat) :
    signedSteps neg (q * k) = signedSteps neg q * k := by
  cases neg <;> simp [signedSteps]

/-- Steps that make up whole units are a multiple of them. -/
theorem signedSteps_eq_mul {neg : Bool} {s k : Nat} {n : Int} (pos : 0 < k) :
    signedSteps neg s = n * k ↔ s % k = 0 ∧ signedSteps neg (s / k) = n := by
  have apart : (k : Int) ≠ 0 := by exact_mod_cast Nat.ne_of_gt pos
  constructor
  · intro h
    obtain rfl : s = n.natAbs * k := by
      rw [← natAbs_signedSteps neg s, h, Int.natAbs_mul, Int.natAbs_natCast]
    refine ⟨Nat.mul_mod_left _ _, ?_⟩
    rw [Nat.mul_div_cancel _ pos]
    exact Int.eq_of_mul_eq_mul_right apart ((signedSteps_mul _ _ _).symm.trans h)
  · rintro ⟨none, rfl⟩
    rw [← signedSteps_mul, Nat.div_mul_cancel (Nat.dvd_of_mod_eq_zero none)]

end Binary64

namespace HashKey

open Binary64

theorem float_eq_integer {x : Binary64} {n : Int} :
    float x = .integer n ↔ x.equalsInt n = true := by
  cases x with
  | nan | infinite => simp [equalsInt, float]
  | finite neg s =>
    simp only [equalsInt, float, beq_iff_eq, signedSteps_eq_mul oneSteps_pos]
    split <;> simp [*]

theorem float_eq_float {x y : Binary64} (number : x.isNaN = false) :
    float x = float y ↔ x.numericEq y = true := by
  cases x with
  | nan => cases number
  | infinite neg =>
    cases y with
    | finite =>
      simp only [float, numericEq]
      split <;> simp
    | _ => simp [float, numericEq]
  | finite neg s =>
    cases y with
    | nan | infinite =>
      simp only [float, numericEq]
      split <;> simp
    | finite neg' s' =>
      simp only [numericEq, beq_iff_eq]
      by_cases whole : s' % oneSteps = 0
      · have target : float (.finite neg' s') = .integer (signedSteps neg' (s' / oneSteps)) := by
          simp only [float, if_pos whole]
        rw [target, float_eq_integer, equalsInt, beq_iff_eq, ← signedSteps_mul,
          Nat.div_mul_cancel (Nat.dvd_of_mod_eq_zero whole)]
      · have target : float (.finite neg' s') = .fraction (signedSteps neg' s') := by
          simp only [float, if_neg whole]
        rw [target]
        simp only [float]
        split
        · next h =>
          simp only [reduceCtorEq, false_iff]
          intro same
          apply whole
          rw [← natAbs_signedSteps neg' s', ← same, natAbs_signedSteps]
          exact h
        · simp

end HashKey

/-- What tells a datum without parts apart from others: the key that it hashes by, or its identity.
Objects stand for themselves as long as it is not known what they are made of. -/
inductive Face where
  | plain (key : HashKey)
  | foreign (tag : Nat) (text : String)
  | deferred (tag : Nat)
  | object (kind : CellKind) (w : Option Wrapper) (index : Nat)

namespace Value

def face : Value → Face
  | .null => .plain .null
  | .unnamed => .plain .unnamed
  | .bool b => .plain (.integer b.toInt)
  | .int n => .plain (.integer n)
  | .float x => .plain (.float x)
  | .text s => .plain (.text s)
  | .location l => .plain (.text l.tag)
  | .bytes bs => .plain (.bytes bs)
  | .named r => .plain (.object .named r.index)
  | .scalar r => .plain (.object .scalar r.index)
  | .foreign tag shown => .foreign tag shown
  | .deferred d => .deferred d.tag
  | .list r => .object .list none r.index
  | .set r => .object .set none r.index
  | .dict r => .object .dict none r.index
  | .wrapper w r => .object .wrapper (some w) r.index
  | .argument r => .object .argument none r.index
  | .directive r => .object .directive none r.index
  | .tuple _ _ | .config _ _ _ _ _ => .plain .nil

def isNaN : Value → Bool
  | .float x => x.isNaN
  | _ => false

theorem eq_iff_index {k : CellKind} {a b : Ref k} : a = b ↔ a.index = b.index := by
  cases a; cases b; simp

/-- A number is equal to a float when the float has the key of that number. -/
theorem plain_eq_float {f : Binary64} {n : Int} :
    Face.plain (.integer n) = .plain (HashKey.float f) ↔ f.equalsInt n = true := by
  rw [← HashKey.float_eq_integer, Face.plain.injEq, eq_comm]

theorem float_eq_plain {f : Binary64} {n : Int} :
    Face.plain (HashKey.float f) = .plain (.integer n) ↔ f.equalsInt n = true := by
  rw [← HashKey.float_eq_integer, Face.plain.injEq]

/-- No datum but a number has the face of one. -/
theorem face_ne_float {f : Binary64} {x : Value}
    (other : Equality.numbersEqual? x (.float f) = none) : x.face ≠ .plain (HashKey.float f) := by
  intro same
  cases f with
  | finite neg s =>
    rw [HashKey.float] at same
    cases x <;> simp_all [face, Equality.numbersEqual?] <;> split at same <;> cases same
  | _ => cases x <;> simp_all [face, HashKey.float, Equality.numbersEqual?]

/-- Data without elements are equal when they cannot be told apart. -/
theorem atomsEqual_iff {x y : Value} (left : x.row? = none) (right : y.row? = none)
    (number : x.isNaN = false) : Equality.atomsEqual x y = true ↔ x.face = y.face := by
  cases x with
  | tuple | config => cases left
  | bool a =>
    cases y with
    | tuple | config => cases right
    | bool b => cases a <;> cases b <;> simp [Equality.atomsEqual, Equality.numbersEqual?, face]
    | int n =>
      simp only [Equality.atomsEqual, Equality.numbersEqual?, face, beq_iff_eq, Face.plain.injEq,
        HashKey.integer.injEq]
      exact eq_comm
    | float f => exact plain_eq_float.symm
    | _ => simp [Equality.atomsEqual, Equality.numbersEqual?, Value.text?, same, face]
  | int n =>
    cases y with
    | tuple | config => cases right
    | float f => exact plain_eq_float.symm
    | _ => simp [Equality.atomsEqual, Equality.numbersEqual?, Value.text?, same, face]
  | float f =>
    cases y with
    | tuple | config => cases right
    | bool | int => exact float_eq_plain.symm
    | float g =>
      simp [Equality.atomsEqual, Equality.numbersEqual?, face, HashKey.float_eq_float number]
    | _ =>
      simp [Equality.atomsEqual, Equality.numbersEqual?, Value.text?, same]
      exact (face_ne_float rfl).symm
  | _ =>
    cases y with
    | tuple | config => cases right
    | float f =>
      simp [Equality.atomsEqual, Equality.numbersEqual?, Value.text?, same]
      exact face_ne_float rfl
    | _ => simp [Equality.atomsEqual, Equality.numbersEqual?, Value.text?, same, face, eq_iff_index]

end Value

/-- What a datum is made of at its surface. The elements of a set and the entries of a dictionary
are in no order, but with the keys that they are kept under. -/
inductive Layer (α : Type) where
  | atom (face : Face)
  | row (items : List α)
  | list (items : List α)
  | set (members : Multiset (HashKey × α))
  | dict (entries : Multiset (HashKey × α × α))
  | wrapper (w : Wrapper) (type : α)
  | argument (name type description hasDefault : α) (default : Option α)
  | directive (name description locations args : α)

namespace Layer

variable {α β γ : Type}

def map (f : α → β) : Layer α → Layer β
  | .atom face => .atom face
  | .row items => .row (items.map f)
  | .list items => .list (items.map f)
  | .set members => .set (members.map fun m => (m.1, f m.2))
  | .dict entries => .dict (entries.map fun e => (e.1, f e.2.1, f e.2.2))
  | .wrapper w type => .wrapper w (f type)
  | .argument name type description hasDefault default =>
    .argument (f name) (f type) (f description) (f hasDefault) (default.map f)
  | .directive name description locations args =>
    .directive (f name) (f description) (f locations) (f args)

/-- What lies under the surface. -/
def parts : Layer α → Multiset α
  | .atom _ => 0
  | .row items | .list items => items
  | .set members => members.map Prod.snd
  | .dict entries => entries.map (fun e => e.2.1) + entries.map (fun e => e.2.2)
  | .wrapper _ type => {type}
  | .argument name type description hasDefault default =>
    name ::ₘ type ::ₘ description ::ₘ hasDefault ::ₘ (default.toList : Multiset α)
  | .directive name description locations args => {name, description, locations, args}

theorem map_map (g : β → γ) (f : α → β) (l : Layer α) : (l.map f).map g = l.map (g ∘ f) := by
  cases l <;> simp [map]

/-- What tells no more apart than another function does agrees where that one agrees. -/
theorem map_eq_map_of_factors {f : α → β} {g : α → γ} {l m : Layer α} [Nonempty γ]
    (factors : g.FactorsThrough f) (h : l.map f = m.map f) : l.map g = m.map g := by
  obtain ⟨e, rfl⟩ := (Function.factorsThrough_iff g).1 factors
  rw [← map_map, ← map_map, h]

end Layer

/-- What comparisons see of a datum down to a depth. -/
def Shape : Nat → Type
  | 0 => Unit
  | n + 1 => Layer (Shape n)

instance : (n : Nat) → Nonempty (Shape n)
  | 0 => ⟨()⟩
  | _ + 1 => ⟨Layer.row []⟩

/-- The datum itself, unless it has to be called to get at a type. -/
def Value.known? : Value → Option Value
  | .deferred _ => none
  | v => some v

/-- The type of a wrapping type, as far as it can be told without calling a deferred one. -/
def WrappingType.type? (c : WrappingType) : Option Value :=
  c.resolved.or (c.source.bind Value.known?)

def Argument.type? (c : Argument) : Option Value := c.resolved.or c.source.known?

/-- The surface of an object, if it is complete and its type is known. -/
def Body.layer? : Body → Option (Layer Value)
  | .tuple items => some (.row items)
  | .config name locations args description => some (.row [name, locations, args, description])
  | .list items => some (.list items)
  | .set members => some (.set (members.map fun m => (m.hash, m.value)))
  | .dict entries => some (.dict (entries.map fun e => (e.hash, e.key, e.value)))
  | .wrapper w c => c.type?.map (.wrapper w)
  | .argument c => do
    let name ← c.name
    let type ← c.type?
    let description ← c.description
    let hasDefault ← c.hasDefault
    return .argument name type description hasDefault c.default
  | .directive d => some (.directive d.name d.description d.locations.value d.args.value)

variable {s u : Session} {v x y : Value} {l : Layer Value} {n : Nat}

namespace Session

def layer? (s : Session) (v : Value) : Option (Layer Value) := (s.body? v).bind Body.layer?

def layer (s : Session) (v : Value) : Layer Value := (s.layer? v).getD (.atom v.face)

def shape (s : Session) : (n : Nat) → Value → Shape n
  | 0, _ => ()
  | n + 1, v => (s.layer v).map (s.shape n)

end Session

/-! ### What remains -/

theorem Value.eq_of_known? {v t : Value} (h : v.known? = some t) : v = t := by
  cases v with
  | deferred => cases h
  | _ => exact Option.some.inj h

theorem MayResolve.eq_of_known? {source t u : Value} (h : MayResolve source u)
    (known : source.known? = some t) : u = t := by
  rcases h with rfl | ⟨d, rfl⟩
  · exact Value.eq_of_known? known
  · cases known

theorem WrappingType.Settles.type {c c' : WrappingType} {t : Value} (h : c.Settles c')
    (known : c.type? = some t) : c'.type? = some t := by
  simp only [WrappingType.type?, Option.or_eq_some_iff, Option.bind_eq_some_iff] at known ⊢
  rcases known with resolved | ⟨unresolved, source, based, known⟩
  · exact .inl (h.resolved resolved)
  cases now : c'.resolved with
  | none => exact .inr ⟨rfl, source, h.source.trans based, known⟩
  | some u =>
    rcases h.honest now with resolved | ⟨source', based', may⟩
    · rw [unresolved] at resolved
      cases resolved
    · cases based.symm.trans based'
      exact .inl (congrArg some (may.eq_of_known? known))

theorem Argument.Settles.type {c c' : Argument} {t : Value} (h : c.Settles c')
    (known : c.type? = some t) : c'.type? = some t := by
  simp only [Argument.type?, Option.or_eq_some_iff] at known ⊢
  rcases known with resolved | ⟨unresolved, known⟩
  · exact .inl (h.resolved resolved)
  cases now : c'.resolved with
  | none => exact .inr ⟨rfl, h.source ▸ known⟩
  | some u =>
    rcases h.honest now with resolved | may
    · rw [unresolved] at resolved
      cases resolved
    · exact .inl (congrArg some (may.eq_of_known? known))

/-- A body in which a type may be resolved. -/
def Body.Settles : Body → Body → Prop
  | .wrapper w c, b => ∃ c', b = .wrapper w c' ∧ c.Settles c'
  | .argument c, b => ∃ c', b = .argument c' ∧ c.Settles c'
  | b, b' => b' = b

theorem Body.Settles.layer? {b b' : Body} (h : b.Settles b') (seen : b.layer? = some l) :
    b'.layer? = some l := by
  cases b with
  | wrapper w c =>
    obtain ⟨c', rfl, settles⟩ := h
    obtain ⟨t, type, rfl⟩ := Option.map_eq_some_iff.1 seen
    exact Option.map_eq_some_iff.2 ⟨t, settles.type type, rfl⟩
  | argument c =>
    obtain ⟨c', rfl, settles⟩ := h
    simp only [Body.layer?, Option.bind_eq_bind, Option.bind_eq_some_iff, Option.pure_def,
      Option.some.injEq] at seen ⊢
    obtain ⟨name, named, type, typed, description, described, hasDefault, decided, rfl⟩ := seen
    exact ⟨name, settles.name.trans named, type, settles.type typed, description,
      settles.description.trans described, hasDefault, settles.hasDefault.trans decided,
      by rw [settles.default]⟩
  | tuple | config | list | set | dict | directive =>
    cases h
    exact seen

namespace Session

theorem layer_of_some (h : s.layer? v = some l) : s.layer v = l := by rw [layer, h]; rfl

theorem layer_of_none (h : s.layer? v = none) : s.layer v = .atom v.face := by rw [layer, h]; rfl

/-- What an object is made of remains, with a type that may be resolved. -/
theorem Extends.body? {b : Body} (h : s.Extends u) (body : s.body? v = some b) :
    ∃ b', u.body? v = some b' ∧ b.Settles b' := by
  have made := makes_of_body body
  cases b with
  | wrapper w c =>
    obtain ⟨r, rfl, -⟩ := made
    obtain ⟨c', body', settles⟩ := h.body_wrapper body
    exact ⟨_, body', c', rfl, settles⟩
  | argument c =>
    obtain ⟨q, rfl, -⟩ := made
    obtain ⟨c', body', settles⟩ := h.body_argument body
    exact ⟨_, body', c', rfl, settles⟩
  | directive d =>
    obtain ⟨r, rfl, -⟩ := made
    exact ⟨_, h.body_directive body, rfl⟩
  | tuple | config | list | set | dict => exact ⟨_, h.body_data body rfl, rfl⟩

/-- The surface of a datum remains once it is known. -/
theorem Extends.layer? (h : s.Extends u) (known : s.layer? v = some l) : u.layer? v = some l := by
  obtain ⟨b, body, seen⟩ := Option.bind_eq_some_iff.1 known
  obtain ⟨b', body', settles⟩ := h.body? body
  exact Option.bind_eq_some_iff.2 ⟨b', body', settles.layer? seen⟩

/-- An object that nothing is known of is told by its face. -/
theorem eq_of_face {k : CellKind} {w : Option Wrapper} {i : Nat} (left : x.face = .object k w i)
    (right : y.face = .object k w i) : x = y := by
  cases x <;> cases left <;> cases y <;> simp_all [Value.face, Value.eq_iff_index]

/-- Objects that nothing is known of have faces of their own, and other data keep theirs. -/
theorem layer?_eq_of_face (left : s.layer? x = none) (right : s.layer? y = none)
    (h : x.face = y.face) : u.layer? x = u.layer? y := by
  have plain : ∀ {v : Value}, (∀ k w i, v.face ≠ .object k w i) → s.layer? v = none →
      u.layer? v = none := by
    intro v other unknown
    cases v
    case tuple | config => cases unknown
    case list | set | dict | wrapper | argument | directive => exact absurd rfl (other _ _ _)
    all_goals rfl
  by_cases object : ∃ k w i, y.face = .object k w i
  · obtain ⟨k, w, i, face⟩ := object
    rw [eq_of_face (h.trans face) face]
  · have other : ∀ k w i, y.face ≠ .object k w i := fun k w i face => object ⟨k, w, i, face⟩
    rw [plain (h ▸ other) left, plain other right]

theorem map_ne_atom {f : Value → Shape n} (h : s.layer? x = some l) (face : Face) :
    l.map f ≠ .atom face := by
  obtain ⟨b, -, seen⟩ := Option.bind_eq_some_iff.1 h
  cases b <;>
    simp only [Body.layer?, Option.map_eq_some_iff, Option.bind_eq_bind, Option.bind_eq_some_iff,
      Option.pure_def, Option.some.injEq] at seen
  case wrapper =>
    obtain ⟨t, -, rfl⟩ := seen
    simp [Layer.map]
  case argument =>
    obtain ⟨name, -, type, -, description, -, hasDefault, -, rfl⟩ := seen
    simp [Layer.map]
  all_goals
    subst seen
    simp [Layer.map]

/-- Shapes that are equal remain so. -/
theorem Extends.shape (h : s.Extends u) (same : s.shape n x = s.shape n y) :
    u.shape n x = u.shape n y := by
  induction n generalizing x y with
  | zero => rfl
  | succ n ih =>
    simp only [Session.shape] at same ⊢
    cases left : s.layer? x with
    | none =>
      cases right : s.layer? y with
      | none =>
        rw [layer_of_none left, layer_of_none right] at same
        have faces : x.face = y.face := by injection same
        rw [layer, layer, layer?_eq_of_face left right faces, faces]
      | some m =>
        rw [layer_of_none left, layer_of_some right] at same
        exact absurd same.symm (map_ne_atom right _)
    | some l =>
      cases right : s.layer? y with
      | none =>
        rw [layer_of_some left, layer_of_none right] at same
        exact absurd same (map_ne_atom left _)
      | some m =>
        rw [layer_of_some left, layer_of_some right] at same
        rw [layer_of_some (h.layer? left), layer_of_some (h.layer? right)]
        exact Layer.map_eq_map_of_factors (fun _ _ => ih) same

theorem layer?_of_row {items : List Value} (h : x.row? = some items) :
    s.layer? x = some (.row items) := by
  cases x <;> cases h <;> rfl

end Session

namespace Value

/-- Identical data are one datum, rows of identical data, or one deferred type. -/
theorem same_cases {x y : Value} (h : x.same y = true) :
    x = y ∨ (∃ xs ys, x.row? = some xs ∧ y.row? = some ys ∧ sameAll xs ys = true) ∨
      ∃ d e, x = .deferred d ∧ y = .deferred e ∧ d.tag = e.tag := by
  cases x <;> cases y <;> simp_all [same, row?, sameAll, Binary64.same]

theorem map_eq_of_sameAll {α : Type} {f : Value → α} {xs ys : List Value}
    (same : ∀ {x y : Value}, x.same y = true → f x = f y) (h : sameAll xs ys = true) :
    xs.map f = ys.map f := by
  induction xs generalizing ys with
  | nil =>
    cases ys with
    | nil => rfl
    | cons => cases h
  | cons x xs ih =>
    cases ys with
    | nil => cases h
    | cons y ys =>
      simp only [sameAll, Bool.and_eq_true] at h
      rw [List.map_cons, List.map_cons, same h.1, ih h.2]

end Value

namespace Session

/-- Identical data have the same shape. -/
theorem shape_of_same (h : x.same y = true) : s.shape n x = s.shape n y := by
  induction n generalizing x y with
  | zero => rfl
  | succ n ih =>
    rcases Value.same_cases h with rfl | ⟨xs, ys, left, right, all⟩ | ⟨d, e, rfl, rfl, tags⟩
    · rfl
    · rw [shape, shape, layer_of_some (layer?_of_row left), layer_of_some (layer?_of_row right)]
      exact congrArg Layer.row (Value.map_eq_of_sameAll ih all)
    · show Layer.atom (.deferred d.tag) = Layer.atom (.deferred e.tag)
      rw [tags]

theorem shape_of_layer? {l : Layer Value} (h : s.layer? v = some l) :
    s.shape (n + 1) v = l.map (s.shape n) := by
  rw [shape, layer_of_some h]

/-! ### Objects that exist -/

theorem body?_list {r : Ref .list} (h : (s.body? (.list r)).isSome = true) :
    s.body? (.list r) = some (.list (s.list r)) := by
  rw [body?, Option.isSome_map] at h
  exact congrArg (Option.map Body.list) (Arena.get?_of_isSome h).2

theorem body?_set {r : Ref .set} (h : (s.body? (.set r)).isSome = true) :
    s.body? (.set r) = some (.set (s.set r)) := by
  rw [body?, Option.isSome_map] at h
  exact congrArg (Option.map Body.set) (Arena.get?_of_isSome h).2

theorem body?_dict {r : Ref .dict} (h : (s.body? (.dict r)).isSome = true) :
    s.body? (.dict r) = some (.dict (s.dict r)) := by
  rw [body?, Option.isSome_map] at h
  exact congrArg (Option.map Body.dict) (Arena.get?_of_isSome h).2

theorem body?_directive {r : Ref .directive} (h : (s.body? (.directive r)).isSome = true) :
    s.body? (.directive r) = some (.directive (s.directive r)) := by
  rw [body?, Option.isSome_map] at h
  exact congrArg (Option.map Body.directive) (Arena.get?_of_isSome h).2

theorem live_wrapper {w : Wrapper} {r : Ref .wrapper}
    (h : (s.body? (.wrapper w r)).isSome = true) : r.index < s.wrappers.size := by
  rw [body?, Option.isSome_map] at h
  exact (Arena.get?_of_isSome h).1

theorem live_argument {q : Ref .argument} (h : (s.body? (.argument q)).isSome = true) :
    q.index < s.arguments.size := by
  rw [body?, Option.isSome_map] at h
  exact (Arena.get?_of_isSome h).1

theorem layer?_of_body {b : Body} (h : s.body? v = some b) : s.layer? v = b.layer? := by
  rw [layer?, h, Option.bind_some]

theorem layer?_wrapper {w : Wrapper} {r : Ref .wrapper} (live : r.index < s.wrappers.size) :
    s.layer? (.wrapper w r) = (s.wrapper r).type?.map (.wrapper w) := by
  have cell : s.wrappers.get? r.index = some (s.wrapper r) := Arena.get?_of_lt live
  rw [layer?, body?, cell]
  rfl

theorem layer?_argument {q : Ref .argument} (live : q.index < s.arguments.size) :
    s.layer? (.argument q) = Body.layer? (.argument (s.argument q)) := by
  have cell : s.arguments.get? q.index = some (s.argument q) := Arena.get?_of_lt live
  rw [layer?, body?, cell]
  rfl

end Session

/-! ### Kinds of objects -/

/-- The kind of an object; a wrapper is of the kind of its class. -/
def Face.kind? : Face → Option (CellKind × Option Wrapper)
  | .object k w _ => some (k, w)
  | _ => none

def Layer.kind? {α : Type} : Layer α → Option (CellKind × Option Wrapper)
  | .atom face => face.kind?
  | .row _ => none
  | .list _ => some (.list, none)
  | .set _ => some (.set, none)
  | .dict _ => some (.dict, none)
  | .wrapper w _ => some (.wrapper, some w)
  | .argument _ _ _ _ _ => some (.argument, none)
  | .directive _ _ _ _ => some (.directive, none)

theorem Layer.kind?_map {α β : Type} (f : α → β) (l : Layer α) : (l.map f).kind? = l.kind? := by
  cases l <;> rfl

namespace Session

theorem kind?_of_body {b : Body} {l : Layer Value} (body : s.body? v = some b)
    (seen : b.layer? = some l) : l.kind? = v.face.kind? := by
  have made := makes_of_body body
  cases b with
  | wrapper w c =>
    obtain ⟨r, rfl, -⟩ := made
    obtain ⟨t, -, rfl⟩ := Option.map_eq_some_iff.1 seen
    rfl
  | argument c =>
    obtain ⟨q, rfl, -⟩ := made
    simp only [Body.layer?, Option.bind_eq_bind, Option.bind_eq_some_iff, Option.pure_def,
      Option.some.injEq] at seen
    obtain ⟨name, -, type, -, description, -, hasDefault, -, rfl⟩ := seen
    rfl
  | tuple | config | list | set | dict | directive =>
    obtain ⟨r, rfl, -⟩ := made
    cases seen
    rfl

theorem kind?_layer (s : Session) (v : Value) : (s.layer v).kind? = v.face.kind? := by
  cases known : s.layer? v with
  | none => rw [layer_of_none known, Layer.kind?]
  | some l =>
    obtain ⟨b, body, seen⟩ := Option.bind_eq_some_iff.1 known
    rw [layer_of_some known, kind?_of_body body seen]

/-- Data of one shape are of one kind. -/
theorem kind?_of_shape (h : s.shape (n + 1) x = s.shape (n + 1) y) :
    x.face.kind? = y.face.kind? := by
  have kinds := congrArg Layer.kind? h
  simpa only [shape, Layer.kind?_map, kind?_layer] using kinds

/-- A datum that is neither an object nor a row is told by its face. -/
theorem layer?_of_kind? (other : v.face.kind? = none) (single : v.row? = none) :
    s.layer? v = none := by
  cases v
  case tuple | config => cases single
  case list | set | dict | wrapper | argument | directive => cases other
  all_goals rfl

/-- Data that are neither rows nor objects of one kind have one shape when they have one face. -/
theorem shape_iff_face (apart : x.face.kind? = y.face.kind? → x.face.kind? = none)
    (left : x.row? = none) (right : y.row? = none) :
    s.shape (n + 1) x = s.shape (n + 1) y ↔ x.face = y.face := by
  have faced (same : x.face.kind? = y.face.kind?) :
      s.layer x = .atom x.face ∧ s.layer y = .atom y.face :=
    ⟨layer_of_none (layer?_of_kind? (apart same) left),
      layer_of_none (layer?_of_kind? (same ▸ apart same) right)⟩
  constructor
  · intro h
    obtain ⟨surface, surface'⟩ := faced (kind?_of_shape h)
    rw [shape, shape, surface, surface'] at h
    injection h
  · intro h
    obtain ⟨surface, surface'⟩ := faced (congrArg Face.kind? h)
    rw [shape, shape, surface, surface', h]

/-- A row is not of the shape of any datum that is none. -/
theorem shape_row_ne {items : List Value} (left : x.row? = some items) (right : y.row? = none) :
    s.shape (n + 1) x ≠ s.shape (n + 1) y := by
  intro h
  have kinds := kind?_of_shape h
  have none : x.face.kind? = none := by cases x <;> cases left <;> rfl
  rw [shape, shape, layer_of_some (layer?_of_row left),
    layer_of_none (layer?_of_kind? (kinds ▸ none) right)] at h
  cases h

end Session

end DirectiveSchema

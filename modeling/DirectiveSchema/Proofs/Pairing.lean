import DirectiveSchema.Proofs.Cells
import Mathlib.Data.List.Forall2

/-!
Pairings. Two sessions may hold the same objects under other identities: a pairing tells which tag
and which cell of the one stands for which of the other. Data are paired when they differ only in
identities that are paired; so are hash keys, and what cells hold. A one-to-one pairing is not
noticed by tests of identity, nor by comparisons of keys.
-/
namespace DirectiveSchema

variable {α β : Type}

/-! ### Quiet calls -/

/-- The datum that an atom of notation stands for. -/
def Expression.literal? : Expression → Option Value
  | .null => some .null
  | .bool b => some (.bool b)
  | .int n => some (.int n)
  | .float (.nan _) => none
  | .float x => some (.float x)
  | .text s => some (.text s)
  | .bytes bs => some (.bytes bs)
  | .location l => some (.location l)
  | _ => none

mutual

/-- Whether all calls of deferred types are quiet: a call builds no directive, nor does it put
anything but literals into a set or into the keys of a dictionary, and the calls of the deferred
types that it builds are quiet as well. The expression itself may be evaluated in a call. -/
def Expression.isQuiet (called : Bool) : Expression → Bool
  | .list items | .tuple items => allQuiet called items
  | .set items => if called then items.all fun e => e.literal?.isSome else allQuiet called items
  | .dict entries => entriesQuiet called entries
  | .type t => t.isQuiet called
  | .argument name type default description =>
    fieldQuiet called name && typeFieldQuiet called type && fieldQuiet called default &&
      fieldQuiet called description
  | .directive _ name locations args description =>
    !called && fieldQuiet called name && fieldQuiet called locations && fieldQuiet called args &&
      fieldQuiet called description
  | _ => true

def TypeExpression.isQuiet (called : Bool) : TypeExpression → Bool
  | .wrap _ t => t.isQuiet called
  | .scalar name serialize parse description =>
    fieldQuiet called name && serialize.isQuiet called && parse.isQuiet called &&
      fieldQuiet called description
  | .value v => v.isQuiet called
  | .deferred _ t => t.isQuiet true
  | _ => true

def CoercionExpression.isQuiet (called : Bool) : CoercionExpression → Bool
  | .constant v => v.isQuiet called
  | _ => true

def allQuiet (called : Bool) : List Expression → Bool
  | [] => true
  | e :: es => e.isQuiet called && allQuiet called es

def entriesQuiet (called : Bool) : List (Expression × Expression) → Bool
  | [] => true
  | (k, v) :: es =>
    (if called then k.literal?.isSome else k.isQuiet called) && v.isQuiet called &&
      entriesQuiet called es

def fieldQuiet (called : Bool) : Option Expression → Bool
  | none => true
  | some e => e.isQuiet called

def typeFieldQuiet (called : Bool) : Option TypeExpression → Bool
  | none => true
  | some t => t.isQuiet called

end

/-- A fault that holds no datum. -/
def Fault.IsPlain (e : Fault) : Prop := e.offendingName? = none ∨ e.offendingName? = some .null

theorem Fault.isPlain_raised (kind : FaultKind) (message : String) :
    (Fault.raised kind message).IsPlain := by
  cases kind <;> first | exact .inl rfl | exact .inr rfl

/-! ### Pairings -/

/-- Which tag, or which cell of a kind, of one session stands for which of another. -/
def Pairing := Option CellKind → Nat → Nat → Prop

namespace Pairing

instance : LE Pairing := ⟨fun φ ψ => ∀ k i j, φ k i j → ψ k i j⟩

variable {φ ψ χ : Pairing}

theorem le_refl (φ : Pairing) : φ ≤ φ := fun _ _ _ h => h

theorem le_trans (h : φ ≤ ψ) (h' : ψ ≤ χ) : φ ≤ χ := fun k i j paired => h' k i j (h k i j paired)

/-- Neither side of a pairing is shared. -/
structure OneToOne (φ : Pairing) : Prop where
  iff {k : Option CellKind} {i i' j j' : Nat} : φ k i j → φ k i' j' → (i = i' ↔ j = j')

/-- Data that differ only in identities that are paired. The calls of deferred types are quiet. -/
inductive Relates (φ : Pairing) : Value → Value → Prop where
  | null : Relates φ .null .null
  | unnamed : Relates φ .unnamed .unnamed
  | bool (b : Bool) : Relates φ (.bool b) (.bool b)
  | int (n : Int) : Relates φ (.int n) (.int n)
  | float {x : Binary64} : x.isNaN = false → Relates φ (.float x) (.float x)
  | nan {p q : Nat} : φ none p q → Relates φ (.float (.nan p)) (.float (.nan q))
  | text (s : String) : Relates φ (.text s) (.text s)
  | bytes (bs : List UInt8) : Relates φ (.bytes bs) (.bytes bs)
  | location (l : Location) : Relates φ (.location l) (.location l)
  | foreign {a b : Nat} (s : String) : φ none a b → Relates φ (.foreign a s) (.foreign b s)
  | tuple {a b : Nat} {xs ys : List Value} : φ none a b → xs.length = ys.length →
      (∀ p ∈ xs.zip ys, Relates φ p.1 p.2) → Relates φ (.tuple a xs) (.tuple b ys)
  | config {a b : Nat} {name name' locations locations' args args' description description' :
        Value} : φ none a b → Relates φ name name' → Relates φ locations locations' →
      Relates φ args args' → Relates φ description description' →
        Relates φ (.config a name locations args description)
          (.config b name' locations' args' description')
  | list {r r' : Ref .list} : φ (some .list) r.index r'.index → Relates φ (.list r) (.list r')
  | set {r r' : Ref .set} : φ (some .set) r.index r'.index → Relates φ (.set r) (.set r')
  | dict {r r' : Ref .dict} : φ (some .dict) r.index r'.index → Relates φ (.dict r) (.dict r')
  | named {r r' : Ref .named} : φ (some .named) r.index r'.index → Relates φ (.named r) (.named r')
  | scalar {r r' : Ref .scalar} :
      φ (some .scalar) r.index r'.index → Relates φ (.scalar r) (.scalar r')
  | wrapper (w : Wrapper) {r r' : Ref .wrapper} :
      φ (some .wrapper) r.index r'.index → Relates φ (.wrapper w r) (.wrapper w r')
  | argument {r r' : Ref .argument} :
      φ (some .argument) r.index r'.index → Relates φ (.argument r) (.argument r')
  | directive {r r' : Ref .directive} :
      φ (some .directive) r.index r'.index → Relates φ (.directive r) (.directive r')
  | deferred {a b : Nat} (counter : String) {body : TypeExpression} : φ none a b →
      body.isQuiet true = true →
        Relates φ (.deferred ⟨a, counter, body⟩) (.deferred ⟨b, counter, body⟩)

/-- Data that are paired one by one. -/
abbrev RelatesAll (φ : Pairing) (vs ws : List Value) : Prop := List.Forall₂ φ.Relates vs ws

/-- Paired data under the same names. -/
abbrev RelatesAttributes {κ : Type} (φ : Pairing) (as bs : List (κ × Value)) : Prop :=
  List.Forall₂ (fun p q => p.1 = q.1 ∧ φ.Relates p.2 q.2) as bs

namespace Relates

variable {v v' w w' : Value} {a b : Nat} {xs ys : List Value}

theorem tuple_iff : φ.Relates (.tuple a xs) (.tuple b ys) ↔ φ none a b ∧ φ.RelatesAll xs ys := by
  rw [RelatesAll, List.forall₂_iff_zip]
  constructor
  · intro h
    cases h with
    | tuple tag same parts => exact ⟨tag, same, fun among => parts _ among⟩
  · rintro ⟨tag, same, parts⟩
    exact .tuple tag same fun p among => parts (a := p.1) (b := p.2) among

/-- What is paired remains so when more is paired. -/
theorem mono (h : φ.Relates v w) (le : φ ≤ ψ) : ψ.Relates v w := by
  induction h with
  | null => exact .null
  | unnamed => exact .unnamed
  | bool b => exact .bool b
  | int n => exact .int n
  | float number => exact .float number
  | nan tag => exact .nan (le _ _ _ tag)
  | text s => exact .text s
  | bytes bs => exact .bytes bs
  | location l => exact .location l
  | foreign s tag => exact .foreign s (le _ _ _ tag)
  | tuple tag same _ ih => exact .tuple (le _ _ _ tag) same ih
  | config tag _ _ _ _ ih₁ ih₂ ih₃ ih₄ => exact .config (le _ _ _ tag) ih₁ ih₂ ih₃ ih₄
  | list cell => exact .list (le _ _ _ cell)
  | set cell => exact .set (le _ _ _ cell)
  | dict cell => exact .dict (le _ _ _ cell)
  | named cell => exact .named (le _ _ _ cell)
  | scalar cell => exact .scalar (le _ _ _ cell)
  | wrapper w cell => exact .wrapper w (le _ _ _ cell)
  | argument cell => exact .argument (le _ _ _ cell)
  | directive cell => exact .directive (le _ _ _ cell)
  | deferred counter tag quiet => exact .deferred counter (le _ _ _ tag) quiet

/-- What is paired with something is paired with itself, once all that is paired is. -/
theorem left (h : φ.Relates v w) (own : ∀ k i j, φ k i j → ψ k i i) : ψ.Relates v v := by
  induction h with
  | null => exact .null
  | unnamed => exact .unnamed
  | bool b => exact .bool b
  | int n => exact .int n
  | float number => exact .float number
  | nan tag => exact .nan (own _ _ _ tag)
  | text s => exact .text s
  | bytes bs => exact .bytes bs
  | location l => exact .location l
  | foreign s tag => exact .foreign s (own _ _ _ tag)
  | @tuple a b xs ys tag same _ ih =>
    refine .tuple (own _ _ _ tag) rfl fun p among => ?_
    obtain ⟨n, hn, rfl⟩ := List.mem_iff_getElem.1 among
    have hn' : n < (xs.zip ys).length := by
      simp only [List.length_zip] at hn ⊢
      omega
    have part := ih _ (List.getElem_mem hn')
    simpa only [List.getElem_zip] using part
  | config tag _ _ _ _ ih₁ ih₂ ih₃ ih₄ => exact .config (own _ _ _ tag) ih₁ ih₂ ih₃ ih₄
  | list cell => exact .list (own _ _ _ cell)
  | set cell => exact .set (own _ _ _ cell)
  | dict cell => exact .dict (own _ _ _ cell)
  | named cell => exact .named (own _ _ _ cell)
  | scalar cell => exact .scalar (own _ _ _ cell)
  | wrapper w cell => exact .wrapper w (own _ _ _ cell)
  | argument cell => exact .argument (own _ _ _ cell)
  | directive cell => exact .directive (own _ _ _ cell)
  | deferred counter tag quiet => exact .deferred counter (own _ _ _ tag) quiet

/-! What does not depend on identities is the same of paired data. -/

theorem className_eq (h : φ.Relates v w) : w.className = v.className := by cases h <;> rfl

theorem text?_eq (h : φ.Relates v w) : w.text? = v.text? := by cases h <;> rfl

theorem isNull_eq (h : φ.Relates v w) : w.isNull = v.isNull := by cases h <;> rfl

theorem isNonNull_eq (h : φ.Relates v w) : w.isNonNull = v.isNonNull := by
  cases h with
  | wrapper w => cases w <;> rfl
  | _ => rfl

theorem isScalar_eq (h : φ.Relates v w) : w.isScalar = v.isScalar := by cases h <;> rfl

theorem isWrapper_eq (h : φ.Relates v w) : w.isWrapper = v.isWrapper := by cases h <;> rfl

theorem weight_eq (h : φ.Relates v w) : Session.sourceWeight w = Session.sourceWeight v := by
  cases h <;> rfl

theorem isLocation_eq (h : φ.Relates v w) : w.isLocation = v.isLocation := by
  rw [Value.isLocation, h.text?_eq, Value.isLocation]

theorem isName_eq (h : φ.Relates v w) : w.isName = v.isName := by
  rw [Value.isName, h.text?_eq, Value.isName]

/-- The elements of paired rows are paired. -/
theorem row? (h : φ.Relates v w) : Option.Rel φ.RelatesAll v.row? w.row? := by
  cases h with
  | tuple tag same parts => exact .some (tuple_iff.1 (.tuple tag same parts)).2
  | config tag name locations args description =>
    exact .some (.cons name (.cons locations (.cons args (.cons description .nil))))
  | _ => exact .none

theorem depths_eq (h : ∀ p ∈ xs.zip ys, p.2.depth = p.1.depth) (same : xs.length = ys.length) :
    Value.depths ys = Value.depths xs := by
  induction xs generalizing ys with
  | nil =>
    cases List.length_eq_zero_iff.1 same.symm
    rfl
  | cons x xs ih =>
    cases ys with
    | nil => cases same
    | cons y ys =>
      rw [Value.depths, Value.depths, h (x, y) List.mem_cons_self,
        ih (fun p hp => h p (List.mem_cons_of_mem _ hp)) (Nat.succ.inj same)]

theorem depth_eq (h : φ.Relates v w) : w.depth = v.depth := by
  induction h with
  | tuple _ same _ ih => rw [Value.depth, depths_eq ih same, Value.depth]
  | config _ _ _ _ _ ih₁ ih₂ ih₃ ih₄ => simp only [Value.depth, ih₁, ih₂, ih₃, ih₄]
  | _ => rfl

/-! A one-to-one pairing is not noticed by tests of identity. -/

theorem sameAll_eq {us us' : List Value}
    (parts : ∀ p ∈ xs.zip ys, ∀ {w w' : Value}, φ.Relates w w' → p.1.same w = p.2.same w')
    (same : xs.length = ys.length) (same' : us.length = us'.length)
    (related : ∀ p ∈ us.zip us', φ.Relates p.1 p.2) :
    Value.sameAll xs us = Value.sameAll ys us' := by
  induction xs generalizing ys us us' with
  | nil =>
    cases List.length_eq_zero_iff.1 same.symm
    cases us with
    | nil =>
      cases List.length_eq_zero_iff.1 same'.symm
      rfl
    | cons u us =>
      cases us' with
      | nil => cases same'
      | cons u' us' => rfl
  | cons x xs ih =>
    cases ys with
    | nil => cases same
    | cons y ys =>
      cases us with
      | nil =>
        cases List.length_eq_zero_iff.1 same'.symm
        rfl
      | cons u us =>
        cases us' with
        | nil => cases same'
        | cons u' us' =>
          rw [Value.sameAll, Value.sameAll,
            parts (x, y) List.mem_cons_self (related (u, u') List.mem_cons_self),
            ih (fun p hp => parts p (List.mem_cons_of_mem _ hp)) (Nat.succ.inj same)
              (Nat.succ.inj same') fun p hp => related p (List.mem_cons_of_mem _ hp)]

theorem same_eq (one : φ.OneToOne) (h : φ.Relates v v') (h' : φ.Relates w w') :
    v'.same w' = v.same w := by
  symm
  have tags {k : Option CellKind} {a b a' b' : Nat} (paired : φ k a b) (paired' : φ k a' b') :
      (a == a') = (b == b') := by
    rw [Bool.eq_iff_iff, beq_iff_eq, beq_iff_eq]
    exact one.iff paired paired'
  have refs {k : CellKind} {r r' q q' : Ref k} (paired : φ (some k) r.index r'.index)
      (paired' : φ (some k) q.index q'.index) : (r == q) = (r' == q') := by
    have same := one.iff paired paired'
    cases r
    cases r'
    cases q
    cases q'
    rw [Bool.eq_iff_iff, beq_iff_eq, beq_iff_eq, Ref.mk.injEq, Ref.mk.injEq]
    exact same
  induction h generalizing w w' with
  | nan tag =>
    cases h' with
    | nan tag' =>
      simp only [Value.same, Binary64.same, Binary64.nan.injEq]
      exact decide_eq_decide.2 (one.iff tag tag')
    | @float x number => cases x <;> first | rfl | cases number
    | _ => rfl
  | @float x number =>
    cases h' with
    | nan tag' => cases x <;> first | rfl | cases number
    | _ => rfl
  | foreign s tag =>
    cases h' with
    | foreign s' tag' => simp only [Value.same, tags tag tag']
    | _ => rfl
  | tuple tag same _ ih =>
    cases h' with
    | tuple tag' same' parts' =>
      simp only [Value.same, tags tag tag',
        sameAll_eq (fun p hp _ _ h => ih p hp h) same same' parts']
    | _ => rfl
  | config tag _ _ _ _ ih₁ ih₂ ih₃ ih₄ =>
    cases h' with
    | config tag' h₁ h₂ h₃ h₄ =>
      simp only [Value.same, tags tag tag', ih₁ h₁, ih₂ h₂, ih₃ h₃, ih₄ h₄]
    | _ => rfl
  | list cell =>
    cases h' with
    | list cell' => simp only [Value.same, refs cell cell']
    | _ => rfl
  | set cell =>
    cases h' with
    | set cell' => simp only [Value.same, refs cell cell']
    | _ => rfl
  | dict cell =>
    cases h' with
    | dict cell' => simp only [Value.same, refs cell cell']
    | _ => rfl
  | named cell =>
    cases h' with
    | named cell' => simp only [Value.same, refs cell cell']
    | _ => rfl
  | scalar cell =>
    cases h' with
    | scalar cell' => simp only [Value.same, refs cell cell']
    | _ => rfl
  | wrapper w cell =>
    cases h' with
    | wrapper w' cell' => simp only [Value.same, refs cell cell']
    | _ => rfl
  | argument cell =>
    cases h' with
    | argument cell' => simp only [Value.same, refs cell cell']
    | _ => rfl
  | directive cell =>
    cases h' with
    | directive cell' => simp only [Value.same, refs cell cell']
    | _ => rfl
  | deferred counter tag =>
    cases h' with
    | deferred counter' tag' => simp only [Value.same, tags tag tag']
    | _ => rfl
  | _ => cases h' <;> rfl

end Relates

/-! ### Hash keys -/

/-- Hash keys that differ only in identities that are paired. -/
inductive RelatesKeys (φ : Pairing) : HashKey → HashKey → Prop where
  | null : RelatesKeys φ .null .null
  | unnamed : RelatesKeys φ .unnamed .unnamed
  | integer (n : Int) : RelatesKeys φ (.integer n) (.integer n)
  | fraction (steps : Int) : RelatesKeys φ (.fraction steps) (.fraction steps)
  | infinite (negative : Bool) : RelatesKeys φ (.infinite negative) (.infinite negative)
  | nan {p q : Nat} : φ none p q → RelatesKeys φ (.nan p) (.nan q)
  | text (s : String) : RelatesKeys φ (.text s) (.text s)
  | bytes (bs : List UInt8) : RelatesKeys φ (.bytes bs) (.bytes bs)
  | wrapper (w : Wrapper) : RelatesKeys φ (.wrapper w) (.wrapper w)
  | object {k : CellKind} {i j : Nat} : φ (some k) i j → RelatesKeys φ (.object k i) (.object k j)
  | tagged {a b : Nat} : φ none a b → RelatesKeys φ (.tagged a) (.tagged b)
  | nil : RelatesKeys φ .nil .nil
  | cons {a a' b b' : HashKey} :
      RelatesKeys φ a a' → RelatesKeys φ b b' → RelatesKeys φ (.cons a b) (.cons a' b')

namespace RelatesKeys

variable {a a' b b' : HashKey}

theorem mono (h : φ.RelatesKeys a b) (le : φ ≤ ψ) : ψ.RelatesKeys a b := by
  induction h with
  | null => exact .null
  | unnamed => exact .unnamed
  | integer n => exact .integer n
  | fraction steps => exact .fraction steps
  | infinite negative => exact .infinite negative
  | nan tag => exact .nan (le _ _ _ tag)
  | text s => exact .text s
  | bytes bs => exact .bytes bs
  | wrapper w => exact .wrapper w
  | object cell => exact .object (le _ _ _ cell)
  | tagged tag => exact .tagged (le _ _ _ tag)
  | nil => exact .nil
  | cons _ _ ih ih' => exact .cons ih ih'

theorem left (h : φ.RelatesKeys a b) (own : ∀ k i j, φ k i j → ψ k i i) : ψ.RelatesKeys a a := by
  induction h with
  | null => exact .null
  | unnamed => exact .unnamed
  | integer n => exact .integer n
  | fraction steps => exact .fraction steps
  | infinite negative => exact .infinite negative
  | nan tag => exact .nan (own _ _ _ tag)
  | text s => exact .text s
  | bytes bs => exact .bytes bs
  | wrapper w => exact .wrapper w
  | object cell => exact .object (own _ _ _ cell)
  | tagged tag => exact .tagged (own _ _ _ tag)
  | nil => exact .nil
  | cons _ _ ih ih' => exact .cons ih ih'

theorem unique (one : φ.OneToOne) (h : φ.RelatesKeys a a') (h' : φ.RelatesKeys a b') : a' = b' := by
  induction h generalizing b' with
  | nan tag =>
    cases h' with
    | nan tag' => rw [(one.iff tag tag').1 rfl]
  | object cell =>
    cases h' with
    | object cell' => rw [(one.iff cell cell').1 rfl]
  | tagged tag =>
    cases h' with
    | tagged tag' => rw [(one.iff tag tag').1 rfl]
  | cons _ _ ih ih' =>
    cases h' with
    | cons first rest => rw [ih first, ih' rest]
  | _ =>
    cases h'
    rfl

theorem unique_left (one : φ.OneToOne) (h : φ.RelatesKeys a a') (h' : φ.RelatesKeys b a') :
    a = b := by
  induction h generalizing b with
  | nan tag =>
    cases h' with
    | nan tag' => rw [(one.iff tag tag').2 rfl]
  | object cell =>
    cases h' with
    | object cell' => rw [(one.iff cell cell').2 rfl]
  | tagged tag =>
    cases h' with
    | tagged tag' => rw [(one.iff tag tag').2 rfl]
  | cons _ _ ih ih' =>
    cases h' with
    | cons first rest => rw [ih first, ih' rest]
  | _ =>
    cases h'
    rfl

/-- A one-to-one pairing is not noticed by comparisons of keys. -/
theorem eq_iff (one : φ.OneToOne) (h : φ.RelatesKeys a a') (h' : φ.RelatesKeys b b') :
    a' = b' ↔ a = b :=
  ⟨fun same => unique_left one h (same ▸ h'), fun same => unique one h (same ▸ h')⟩

theorem row {keys keys' : List HashKey} (h : List.Forall₂ φ.RelatesKeys keys keys') :
    φ.RelatesKeys (HashKey.row keys) (HashKey.row keys') := by
  induction h with
  | nil => exact .nil
  | cons first _ ih => exact .cons first ih

theorem float {x : Binary64} (number : x.isNaN = false) :
    φ.RelatesKeys (HashKey.float x) (HashKey.float x) := by
  cases x with
  | nan => cases number
  | infinite negative => exact .infinite negative
  | finite negative steps =>
    rw [HashKey.float]
    split
    · exact .integer _
    · exact .fraction _

end RelatesKeys

/-! ### What cells hold -/

/-- Elements of sets under paired keys. -/
structure RelatesMembers (φ : Pairing) (m m' : Member) : Prop where
  hash : φ.RelatesKeys m.hash m'.hash
  value : φ.Relates m.value m'.value

/-- Entries of dictionaries under paired keys. -/
structure RelatesEntries (φ : Pairing) (e e' : Entry) : Prop where
  hash : φ.RelatesKeys e.hash e'.hash
  key : φ.Relates e.key e'.key
  value : φ.Relates e.value e'.value

/-- Coercions that return paired data, or are the same and return none of their own. -/
inductive RelatesCoercions (φ : Pairing) : Coercion → Coercion → Prop where
  | plain {c : Coercion} : c.contents = [] → RelatesCoercions φ c c
  | constant {v w : Value} : φ.Relates v w → RelatesCoercions φ (.constant v) (.constant w)

/-- Optional data that are both missing or paired. -/
abbrev RelatesParts (φ : Pairing) (v w : Option Value) : Prop := Option.Rel φ.Relates v w

/-- Paired data stand under the same names. -/
theorem RelatesAttributes.lookup {κ : Type} [BEq κ] {as bs : List (κ × Value)}
    (h : φ.RelatesAttributes as bs) (key : κ) : φ.RelatesParts (as.lookup key) (bs.lookup key) := by
  induction h with
  | nil => exact .none
  | @cons p q as bs first _ ih =>
    obtain ⟨key', v⟩ := p
    obtain ⟨_, w⟩ := q
    obtain ⟨rfl, related⟩ := first
    rw [List.lookup_cons, List.lookup_cons]
    cases key == key' with
    | true => exact .some related
    | false => exact ih

theorem RelatesParts.getD {v w : Option Value} (h : φ.RelatesParts v w) :
    φ.Relates (v.getD .null) (w.getD .null) := by
  cases h with
  | none => exact .null
  | some related => exact related

/-- What the first session knows is known to the second one as well, which may know more. -/
def Informs (φ : Pairing) (v w : Option Value) : Prop :=
  ∀ x, v = some x → ∃ y, w = some y ∧ φ.Relates x y

/-- Paired answers are kept alike. -/
theorem Relates.kept {v w : Value} (h : φ.Relates v w) :
    φ.RelatesParts (Types.kept v) (Types.kept w) := by
  simp only [Types.kept, h.isNull_eq]
  split
  · exact .none
  · exact .some h

theorem RelatesParts.informs {v w : Option Value} (h : φ.RelatesParts v w) : φ.Informs v w := by
  intro x known
  cases known
  cases h with
  | some related => exact ⟨_, rfl, related⟩

theorem RelatesParts.eq_none {v w : Option Value} (h : φ.RelatesParts v w) (missing : v = none) :
    w = none := by
  subst missing
  cases h
  rfl

theorem Informs.none (w : Option Value) : φ.Informs none w := fun x hx => by cases hx

structure RelatesNamed (φ : Pairing) (c c' : NamedType) : Prop where
  name : φ.RelatesParts c.name c'.name
  extra : φ.RelatesAttributes c.extra c'.extra

structure RelatesScalars (φ : Pairing) (c c' : ScalarType) : Prop where
  name : φ.RelatesParts c.name c'.name
  description : φ.RelatesParts c.description c'.description
  serialize : φ.RelatesCoercions c.serialize c'.serialize
  parse : φ.RelatesCoercions c.parse c'.parse
  extra : φ.RelatesAttributes c.extra c'.extra

/-- The wrapper of the second session may be resolved while that of the first one is not. -/
structure RelatesWrappers (φ : Pairing) (c c' : WrappingType) : Prop where
  source : φ.RelatesParts c.source c'.source
  resolved : φ.Informs c.resolved c'.resolved
  extra : φ.RelatesAttributes c.extra c'.extra

structure RelatesArguments (φ : Pairing) (c c' : Argument) : Prop where
  name : φ.RelatesParts c.name c'.name
  description : φ.RelatesParts c.description c'.description
  hasDefault : φ.RelatesParts c.hasDefault c'.hasDefault
  default : φ.RelatesParts c.default c'.default
  source : φ.Relates c.source c'.source
  resolved : φ.Informs c.resolved c'.resolved
  extra : φ.RelatesAttributes c.extra c'.extra

structure RelatesDirectives (φ : Pairing) (c c' : Directive) : Prop where
  name : φ.Relates c.name c'.name
  description : φ.Relates c.description c'.description
  locations : φ.Relates c.locations.value c'.locations.value
  args : φ.Relates c.args.value c'.args.value

/-- Cells of one kind that hold paired data. -/
inductive RelatesCells (φ : Pairing) : Cell → Cell → Prop where
  | list {xs ys : List Value} : φ.RelatesAll xs ys → RelatesCells φ (.list xs) (.list ys)
  | set {ms ms' : List Member} :
      List.Forall₂ φ.RelatesMembers ms ms' → RelatesCells φ (.set ms) (.set ms')
  | dict {es es' : List Entry} :
      List.Forall₂ φ.RelatesEntries es es' → RelatesCells φ (.dict es) (.dict es')
  | named {c c' : NamedType} : φ.RelatesNamed c c' → RelatesCells φ (.named c) (.named c')
  | scalar {c c' : ScalarType} : φ.RelatesScalars c c' → RelatesCells φ (.scalar c) (.scalar c')
  | wrapper {c c' : WrappingType} :
      φ.RelatesWrappers c c' → RelatesCells φ (.wrapper c) (.wrapper c')
  | argument {c c' : Argument} :
      φ.RelatesArguments c c' → RelatesCells φ (.argument c) (.argument c')
  | directive {c c' : Directive} :
      φ.RelatesDirectives c c' → RelatesCells φ (.directive c) (.directive c')

section

variable (le : φ ≤ ψ)

include le

theorem RelatesAll.mono {vs ws : List Value} (h : φ.RelatesAll vs ws) : ψ.RelatesAll vs ws :=
  List.Forall₂.imp (fun _ _ related => related.mono le) h

theorem RelatesAttributes.mono {κ : Type} {as bs : List (κ × Value)}
    (h : φ.RelatesAttributes as bs) : ψ.RelatesAttributes as bs :=
  List.Forall₂.imp (fun _ _ related => ⟨related.1, related.2.mono le⟩) h

theorem RelatesMembers.mono {m m' : Member} (h : φ.RelatesMembers m m') : ψ.RelatesMembers m m' :=
  ⟨h.hash.mono le, h.value.mono le⟩

theorem RelatesEntries.mono {e e' : Entry} (h : φ.RelatesEntries e e') : ψ.RelatesEntries e e' :=
  ⟨h.hash.mono le, h.key.mono le, h.value.mono le⟩

theorem RelatesCoercions.mono {c c' : Coercion} (h : φ.RelatesCoercions c c') :
    ψ.RelatesCoercions c c' := by
  cases h with
  | plain none => exact .plain none
  | constant related => exact .constant (related.mono le)

theorem RelatesParts.mono {v w : Option Value} (h : φ.RelatesParts v w) : ψ.RelatesParts v w := by
  cases h with
  | none => exact .none
  | some related => exact .some (related.mono le)

theorem Informs.mono {v w : Option Value} (h : φ.Informs v w) : ψ.Informs v w := fun x hx =>
  let ⟨y, hy, related⟩ := h x hx
  ⟨y, hy, related.mono le⟩

theorem RelatesDirectives.mono {c c' : Directive} (h : φ.RelatesDirectives c c') :
    ψ.RelatesDirectives c c' :=
  ⟨h.name.mono le, h.description.mono le, h.locations.mono le, h.args.mono le⟩

theorem RelatesCells.mono {c c' : Cell} (h : φ.RelatesCells c c') : ψ.RelatesCells c c' := by
  cases h with
  | list h => exact .list (h.mono le)
  | set h => exact .set (h.imp fun _ _ related => related.mono le)
  | dict h => exact .dict (h.imp fun _ _ related => related.mono le)
  | named h => exact .named ⟨h.name.mono le, h.extra.mono le⟩
  | scalar h =>
    exact .scalar ⟨h.name.mono le, h.description.mono le, h.serialize.mono le, h.parse.mono le,
      h.extra.mono le⟩
  | wrapper h => exact .wrapper ⟨h.source.mono le, h.resolved.mono le, h.extra.mono le⟩
  | argument h =>
    exact .argument ⟨h.name.mono le, h.description.mono le, h.hasDefault.mono le,
      h.default.mono le, h.source.mono le, h.resolved.mono le, h.extra.mono le⟩
  | directive h => exact .directive (h.mono le)

end

section

variable (own : ∀ k i j, φ k i j → ψ k i i)

include own

omit own in
theorem forall₂_left {R : α → β → Prop} {S : α → α → Prop} {as : List α} {bs : List β}
    (h : List.Forall₂ R as bs) (left : ∀ a b, R a b → S a a) : List.Forall₂ S as as := by
  induction h with
  | nil => exact .nil
  | cons first _ ih => exact .cons (left _ _ first) ih

theorem RelatesAll.left {vs ws : List Value} (h : φ.RelatesAll vs ws) : ψ.RelatesAll vs vs :=
  forall₂_left h fun _ _ related => related.left own

theorem RelatesAttributes.left {κ : Type} {as bs : List (κ × Value)}
    (h : φ.RelatesAttributes as bs) : ψ.RelatesAttributes as as :=
  forall₂_left h fun _ _ related => ⟨rfl, related.2.left own⟩

theorem RelatesCoercions.left {c c' : Coercion} (h : φ.RelatesCoercions c c') :
    ψ.RelatesCoercions c c := by
  cases h with
  | plain none => exact .plain none
  | constant related => exact .constant (related.left own)

theorem RelatesParts.left {v w : Option Value} (h : φ.RelatesParts v w) : ψ.RelatesParts v v := by
  cases h with
  | none => exact .none
  | some related => exact .some (related.left own)

theorem Informs.left {v w : Option Value} (h : φ.Informs v w) : ψ.Informs v v := fun x hx =>
  let ⟨_, _, related⟩ := h x hx
  ⟨x, hx, related.left own⟩

theorem RelatesCells.left {c c' : Cell} (h : φ.RelatesCells c c') : ψ.RelatesCells c c := by
  cases h with
  | list h => exact .list (h.left own)
  | set h =>
    exact .set (forall₂_left h fun _ _ related => ⟨related.hash.left own, related.value.left own⟩)
  | dict h =>
    exact .dict (forall₂_left h fun _ _ related =>
      ⟨related.hash.left own, related.key.left own, related.value.left own⟩)
  | named h => exact .named ⟨h.name.left own, h.extra.left own⟩
  | scalar h =>
    exact .scalar ⟨h.name.left own, h.description.left own, h.serialize.left own,
      h.parse.left own, h.extra.left own⟩
  | wrapper h => exact .wrapper ⟨h.source.left own, h.resolved.left own, h.extra.left own⟩
  | argument h =>
    exact .argument ⟨h.name.left own, h.description.left own, h.hasDefault.left own,
      h.default.left own, h.source.left own, h.resolved.left own, h.extra.left own⟩
  | directive h =>
    exact .directive ⟨h.name.left own, h.description.left own, h.locations.left own,
      h.args.left own⟩

end

namespace RelatesCells

variable {c c' : Cell}

theorem source? (h : φ.RelatesCells c c') : φ.RelatesParts c.source? c'.source? := by
  cases h with
  | wrapper h => exact h.source
  | argument h => exact .some h.source
  | _ => exact .none

theorem resolved? (h : φ.RelatesCells c c') : φ.Informs c.resolved? c'.resolved? := by
  cases h with
  | wrapper h => exact h.resolved
  | argument h => exact h.resolved
  | _ => exact fun x hx => by cases hx

/-- Whatever is known on either side, it is forgotten, and paired answers are kept. -/
theorem resolve {v w : Value} (h : φ.RelatesCells c c') (related : φ.Relates v w) :
    φ.RelatesCells (c.resolve v) (c'.resolve w) := by
  have kept := related.kept.informs
  cases h with
  | wrapper h => exact .wrapper { h with resolved := kept }
  | argument h => exact .argument { h with resolved := kept }
  | list h => exact .list h
  | set h => exact .set h
  | dict h => exact .dict h
  | named h => exact .named h
  | scalar h => exact .scalar h
  | directive h => exact .directive h

theorem weight_eq (h : φ.RelatesCells c c') : c'.weight = c.weight := by
  rw [Cell.weight, Cell.weight]
  have sources := h.source?
  generalize c.source? = v at sources ⊢
  generalize c'.source? = w at sources ⊢
  cases sources with
  | none => rfl
  | some related => exact related.weight_eq

end RelatesCells

/-! ### Faults -/

/-- Faults that read alike, over paired names. -/
structure RelatesFaults (φ : Pairing) (e f : Fault) : Prop where
  kind : f.kind = e.kind
  message : f.message = e.message
  cause : f.cause?.map Fault.kind = e.cause?.map Fault.kind
  name : φ.RelatesParts e.offendingName? f.offendingName?

namespace RelatesFaults

variable {e f : Fault}

theorem refl (plain : e.IsPlain) : φ.RelatesFaults e e := by
  refine ⟨rfl, rfl, rfl, ?_⟩
  rcases plain with none | null
  · rw [none]
    exact .none
  · rw [null]
    exact .some .null

end RelatesFaults

end Pairing

end DirectiveSchema

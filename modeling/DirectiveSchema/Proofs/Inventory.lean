import DirectiveSchema.Proofs.Attainment
import DirectiveSchema.Proofs.Storing
import DirectiveSchema.Proofs.Taking

/-!
Inventories of pictures. While pictures are taken, each object that is met gets its number, on the
picture that is taken of it. What relates the objects met before, the pictures, and those met by
then is found step by step: where an object is entered before its parts are pictured, and where it
is left after them.
-/
namespace DirectiveSchema

variable {I : Session → Prop}

namespace Snapshot

variable {E : List Value → List Value → List Snapshot → Prop} {f next : Value → Taking Snapshot}
  {seen seen' seen'' : List Value} {v : Value} {p : Snapshot} {ps qs : List Snapshot} {k : Nat}

/-! ### What is pictured -/

/-- Pictures of data that get no number: a datum stands for itself, or it was met before. -/
inductive Bare (seen : List Value) : Snapshot → Prop where
  | atom {v : Value} : v.isNonNull = false → Bare seen (.atom v)
  | nan : Bare seen .nan
  | again {v : Value} {k : Nat} : number? v seen = some k → Bare seen (.seen k)

/-- What is stored for a part of an argument: null and truth values stand for themselves. -/
def PartOf (o : Option Value) (p : Option Snapshot) : Prop :=
  o.isSome = p.isSome ∧ ∀ v, o = some v → v.isConstant = true → p = some (.atom v)

/-- Pictures of objects that get their number before their parts are pictured. Of an argument it is
known how its default is pictured, and the flag that tells of it. -/
inductive Enters (I : Session → Prop) (k : Nat) : Value → Snapshot → Prop where
  | foreign {tag : Nat} {text : String} : Enters I k (.foreign tag text) (.foreign k text)
  | list {r : Ref .list} {items : List Snapshot} : Enters I k (.list r) (.list k items)
  | set {r : Ref .set} {items : List Snapshot} : Enters I k (.set r) (.set k items)
  | dict {r : Ref .dict} {entries : List (Snapshot × Snapshot)} :
    Enters I k (.dict r) (.dict k entries)
  | named {r : Ref .named} {name : Option Snapshot} {extra : List (String × Snapshot)} :
    Enters I k (.named r) (.named k name extra)
  | wrapper {w : Wrapper} {r : Ref .wrapper} {type : Snapshot} :
    Enters I k (.wrapper w r) (.wrapper k w type)
  | argument {q : Ref .argument} {name description hasDefault default : Option Snapshot}
      {type : Snapshot} {extra : List (String × Snapshot)} {t : Value} {s₀ s : Session} :
    Arguments.type Deferred.supplier q s₀ = .ok t s → I s₀ → I s →
    PartOf (s.argument q).hasDefault hasDefault → PartOf (s.argument q).default default →
    (t.isConstant = true → type = .atom t) →
      Enters I k (.argument q) (.argument k name description hasDefault default type extra)

/-- Pictures of objects that get their number after their parts were pictured, unless they were met
among these. -/
inductive Leaves (slot : Slot) : Value → Snapshot → Prop where
  | tuple {tag : Nat} {items : List Value} {ps : List Snapshot} :
    Leaves slot (.tuple tag items) (.tuple slot ps)
  | config {tag : Nat} {name locations args description : Value} {n l a d : Snapshot} :
    Leaves slot (.config tag name locations args description) (.config slot n l a d)
  | scalar {r : Ref .scalar} {name description : Snapshot} {serialize parse : Coercion} :
    Leaves slot (.scalar r) (.scalar slot name description serialize parse)
  | directive {d : Ref .directive} {n l a e : Snapshot} :
    Leaves slot (.directive d) (.directive slot n l a e)

/-- What relates the objects that were met before, pictures, and those that were met by then. -/
structure Inventory (I : Session → Prop) (E : List Value → List Value → List Snapshot → Prop) :
    Prop where
  resolving : Resolving Deferred.supplier.answer (Upholds I)
  nil (seen : List Value) : E seen seen []
  append {seen seen' seen'' : List Value} {ps qs : List Snapshot} :
    E seen seen' ps → E seen' seen'' qs → E seen seen'' (ps ++ qs)
  bare {seen : List Value} {p : Snapshot} : Bare seen p → E seen seen [p]
  entered {seen seen' : List Value} {v : Value} {p : Snapshot} {ps : List Snapshot} :
    number? v seen = none → Enters I seen.length v p → E (v :: seen) seen' ps →
      E seen seen' (p :: ps)
  left {seen seen' : List Value} {v : Value} {p : Snapshot} {ps : List Snapshot} :
    number? v seen = none → E seen seen' ps → p.nodes = p :: ps → Leaves (slotOf v seen').1 v p →
      E seen (slotOf v seen').2 (p :: ps)

theorem isNonNullAt_of_met {F : List Value} (met : number? v seen = some k) (later : seen <:+ F) :
    isNonNullAt F k = v.isNonNull := by
  obtain ⟨x, found, same⟩ := met_of_number? met
  rw [isNonNullAt, reverse_of_suffix later found]
  exact Value.isNonNull_eq_of_same same

/-- A picture of a datum shows a non-null type if that is one, and what stands for itself as it
is. -/
structure Evokes (seen seen' : List Value) (v : Value) (p : Snapshot) : Prop where
  constant : v.isConstant = true → p = .atom v
  nonNull {F : List Value} : seen' <:+ F → p.shows (isNonNullAt F) = v.isNonNull
  met {k : Nat} : p = .seen k → k < seen.length

/-- Pictures were taken while more objects were met; what stands for itself is never met. -/
structure Inventoried (E : List Value → List Value → List Snapshot → Prop)
    (seen seen' : List Value) (ps : List Snapshot) : Prop where
  later : seen <:+ seen'
  objects : ∀ x ∈ seen', x.isConstant = false
  related : E seen seen' ps

namespace Inventoried

theorem nil (inventory : Inventory I E) (fresh : ∀ x ∈ seen, x.isConstant = false) :
    Inventoried E seen seen [] := ⟨List.suffix_rfl, fresh, inventory.nil seen⟩

theorem append (inventory : Inventory I E) (h : Inventoried E seen seen' ps)
    (h' : Inventoried E seen' seen'' qs) : Inventoried E seen seen'' (ps ++ qs) :=
  ⟨h.later.trans h'.later, h'.objects, inventory.append h.related h'.related⟩

theorem bare (inventory : Inventory I E) (fresh : ∀ x ∈ seen, x.isConstant = false)
    (h : Bare seen p) : Inventoried E seen seen [p] :=
  ⟨List.suffix_rfl, fresh, inventory.bare h⟩

theorem entered (inventory : Inventory I E) (new : number? v seen = none)
    (enters : Enters I seen.length v p) (h : Inventoried E (v :: seen) seen' ps) :
    Inventoried E seen seen' (p :: ps) :=
  ⟨(List.suffix_cons v seen).trans h.later, h.objects, inventory.entered new enters h.related⟩

theorem left (inventory : Inventory I E) (new : number? v seen = none)
    (h : Inventoried E seen seen' ps) (nodes : p.nodes = p :: ps)
    (leaves : Leaves (slotOf v seen').1 v p) :
    Inventoried E seen (slotOf v seen').2 (p :: ps) := by
  have other : v.isConstant = false := by cases leaves <;> rfl
  refine ⟨h.later.trans ?_, ?_, inventory.left new h.related nodes leaves⟩
  · rw [slotOf]
    split
    · exact List.suffix_rfl
    · exact List.suffix_cons v seen'
  · rw [slotOf]
    split
    · exact h.objects
    · exact List.forall_mem_cons.2 ⟨other, h.objects⟩

end Inventoried

namespace Evokes

theorem entered (enters : Enters I seen.length v p) : Evokes seen seen' v p := by
  refine ⟨fun constant => ?_, fun _ => ?_, ?_⟩
  · cases enters <;> cases constant
  · cases enters with
    | wrapper => rename_i w r type; cases w <;> rfl
    | _ => rfl
  · rintro k rfl
    cases enters

theorem left (leaves : Leaves (slotOf v seen').1 v p) :
    Evokes seen (slotOf v seen').2 v p := by
  have other : v.isNonNull = false := by cases leaves <;> rfl
  refine ⟨fun constant => ?_, fun {F} later => ?_, ?_⟩
  · cases leaves <;> cases constant
  · have slot : p.shows (isNonNullAt F) = (slotOf v seen').1.shows (isNonNullAt F) := by
      cases leaves <;> rfl
    rw [slot, other]
    rw [slotOf] at later ⊢
    split at later
    · exact (isNonNullAt_of_met ‹_› later).trans other
    · rfl
  · rintro k rfl
    cases leaves

theorem again (fresh : ∀ x ∈ seen, x.isConstant = false) (met : number? v seen = some k) :
    Evokes seen seen v (.seen k) := by
  obtain ⟨x, found, same⟩ := met_of_number? met
  refine ⟨fun constant => ?_, isNonNullAt_of_met met, ?_⟩
  · have among : x ∈ seen := List.mem_reverse.1 (List.mem_of_getElem? found)
    have other := fresh x among
    rw [Value.eq_of_same_of_isConstant same constant, constant] at other
    cases other
  · rintro _ ⟨⟩
    exact lt_length_of_met found

end Evokes

/-! ### Taking pictures -/

/-- Whatever was met before, the picture that is taken of a datum resembles it. -/
def Inventories (I : Session → Prop) (E : List Value → List Value → List Snapshot → Prop)
    (f : Value → Taking Snapshot) : Prop :=
  ∀ v seen, (∀ x ∈ seen, x.isConstant = false) → Attains I seen (f v) fun seen' p =>
    Inventoried E seen seen' p.nodes ∧ Evokes seen seen' v p

namespace Inventory

open Attains

variable (inventory : Inventory I E)

include inventory

section

variable (parts : Inventories I E f) (fresh : ∀ x ∈ seen, x.isConstant = false)

include parts fresh

theorem takeAll (vs : List Value) :
    Attains I seen (vs.mapM f) fun seen' ps => Inventoried E seen seen' (nodesAll ps) := by
  induction vs generalizing seen with
  | nil => exact pure (.nil inventory fresh)
  | cons v vs ih =>
    rw [List.mapM_cons]
    refine (parts v seen fresh).bind fun seen₁ p h₁ => ?_
    exact (ih h₁.1.objects).bind fun seen₂ ps h₂ => pure (h₁.1.append inventory h₂)

theorem takeEntries (es : List Entry) :
    Attains I seen (es.mapM fun e => do let key ← f e.key; return (key, ← f e.value))
      fun seen' ps => Inventoried E seen seen' (nodesOfEntries ps) := by
  induction es generalizing seen with
  | nil => exact pure (.nil inventory fresh)
  | cons e es ih =>
    rw [List.mapM_cons]
    have first : Attains I seen (do let key ← f e.key; return (key, ← f e.value))
        fun seen' p => Inventoried E seen seen' (p.1.nodes ++ p.2.nodes) :=
      (parts e.key seen fresh).bind fun seen₁ p h₁ =>
        (parts e.value seen₁ h₁.1.objects).bind fun seen₂ q h₂ =>
          pure (h₁.1.append inventory h₂.1)
    exact first.bind fun seen₁ p h₁ => (ih h₁.objects).bind fun seen₂ ps h₂ =>
      pure (h₁.append inventory h₂)

theorem takePart (o : Option Value) :
    Attains I seen (part f o) fun seen' p =>
      Inventoried E seen seen' (nodesOfPart p) ∧ PartOf o p := by
  cases o with
  | none => exact pure ⟨.nil inventory fresh, rfl, fun _ same => by cases same⟩
  | some v =>
    refine (parts v seen fresh).bind fun seen₁ p h₁ => pure ⟨h₁.1, rfl, ?_⟩
    rintro _ ⟨⟩ constant
    exact congrArg some (h₁.2.constant constant)

theorem takeAttributes (as : Attributes) :
    Attains I seen (attributes f as) fun seen' ps =>
      Inventoried E seen seen' (nodesOfAttributes ps) := by
  unfold attributes
  induction as generalizing seen with
  | nil => exact pure (.nil inventory fresh)
  | cons a as ih =>
    rw [List.mapM_cons]
    have first : Attains I seen (do return (a.1, ← f a.2))
        fun seen' (p : String × Snapshot) => Inventoried E seen seen' p.2.nodes :=
      (parts a.2 seen fresh).bind fun seen₁ p h₁ => pure h₁.1
    exact first.bind fun seen₁ p h₁ => (ih h₁.objects).bind fun seen₂ ps h₂ =>
      pure (h₁.append inventory h₂)

/-- Four fields are pictured, and then what they are fields of is left. -/
theorem takeFields (new : number? v seen = none)
    (build : Slot → Snapshot → Snapshot → Snapshot → Snapshot → Snapshot)
    (name locations args description : Value)
    (nodes : ∀ slot p₁ p₂ p₃ p₄, (build slot p₁ p₂ p₃ p₄).nodes = build slot p₁ p₂ p₃ p₄ ::
      (p₁.nodes ++ p₂.nodes ++ p₃.nodes ++ p₄.nodes))
    (leaves : ∀ {slot p₁ p₂ p₃ p₄}, Leaves slot v (build slot p₁ p₂ p₃ p₄)) :
    Attains I seen (do
      let name ← f name
      let locations ← f locations
      let args ← f args
      let description ← f description
      return build (← Snapshot.leave v) name locations args description)
      fun seen' p => Inventoried E seen seen' p.nodes ∧ Evokes seen seen' v p := by
  refine (parts name seen fresh).bind fun seen₁ p₁ h₁ => ?_
  refine (parts locations seen₁ h₁.1.objects).bind fun seen₂ p₂ h₂ => ?_
  refine (parts args seen₂ h₂.1.objects).bind fun seen₃ p₃ h₃ => ?_
  refine (parts description seen₃ h₃.1.objects).bind fun seen₄ p₄ h₄ => ?_
  have all := ((h₁.1.append inventory h₂.1).append inventory h₃.1).append inventory h₄.1
  refine fun s holds => ⟨holds, ?_, .left leaves⟩
  rw [nodes]
  exact all.left inventory new (nodes _ _ _ _ _) leaves

end

/-- An object that was not met before is pictured. -/
theorem takeObject (parts : Inventories I E f) (types : Inventories I E next)
    (fresh : ∀ x ∈ seen, x.isConstant = false) (new : number? v seen = none) :
    Attains I seen (ofObject Deferred.supplier f next v) fun seen' p =>
      Inventoried E seen seen' p.nodes ∧ Evokes seen seen' v p := by
  have resolving := inventory.resolving
  have enter {α : Type} {v : Value} (other : v.isConstant = false) {g : Nat → Taking α}
      {post : List Value → α → Prop}
      (rest : (∀ x ∈ v :: seen, x.isConstant = false) →
        Attains I (v :: seen) (g seen.length) post) :
      Attains I seen (Snapshot.enter v >>= g) post :=
    fun s holds => rest (List.forall_mem_cons.2 ⟨other, fresh⟩) s holds
  have entered {seen' : List Value} {p : Snapshot} {ps : List Snapshot} (nodes : p.nodes = p :: ps)
      (enters : Enters I seen.length v p) (h : Inventoried E (v :: seen) seen' ps) :
      Inventoried E seen seen' p.nodes ∧ Evokes seen seen' v p :=
    ⟨nodes ▸ h.entered inventory new enters, .entered enters⟩
  have leave {seen' : List Value} {build : Slot → Snapshot} {ps : List Snapshot}
      (nodes : ∀ slot, (build slot).nodes = build slot :: ps)
      (leaves : ∀ slot, Leaves slot v (build slot)) (h : Inventoried E seen seen' ps) :
      Attains I seen' (Snapshot.leave v >>= fun slot => Pure.pure (build slot)) fun seen' p =>
        Inventoried E seen seen' p.nodes ∧ Evokes seen seen' v p := by
    refine fun s holds => ⟨holds, ?_, .left (leaves _)⟩
    rw [nodes]
    exact h.left inventory new (nodes _) (leaves _)
  have atom (other : v.isNonNull = false) : Attains I seen (Pure.pure (.atom v) : Taking Snapshot)
      fun seen' p => Inventoried E seen seen' p.nodes ∧ Evokes seen seen' v p := by
    refine pure ⟨.bare inventory fresh (.atom other), fun _ => rfl, fun _ => other.symm, ?_⟩
    rintro k ⟨⟩
  unfold ofObject
  split
  · refine pure ⟨.bare inventory fresh .nan, fun constant => (by cases constant), fun _ => rfl, ?_⟩
    rintro k ⟨⟩
  · exact enter rfl fun fresh => pure (entered rfl .foreign (.nil inventory fresh))
  · split
    · exact atom rfl
    · exact (inventory.takeAll parts fresh _).bind fun seen₁ ps h =>
        leave (fun _ => rfl) (fun _ => .tuple) h
  · exact inventory.takeFields parts fresh new .config _ _ _ _ (fun _ _ _ _ _ => rfl) .config
  · exact enter rfl fun fresh => read fun s _ =>
      (inventory.takeAll parts fresh _).bind fun seen₁ ps h => pure (entered rfl .list h)
  · refine enter rfl fun fresh => read fun s _ => ?_
    rw [show (fun m : Member => f m.value) = f ∘ Member.value from rfl, ← List.mapM_map]
    exact (inventory.takeAll parts fresh _).bind fun seen₁ ps h => pure (entered rfl .set h)
  · exact enter rfl fun fresh => read fun s _ =>
      (inventory.takeEntries parts fresh _).bind fun seen₁ ps h => pure (entered rfl .dict h)
  · refine enter rfl fun fresh => read fun s _ => ?_
    refine (inventory.takePart parts fresh _).bind fun seen₁ p h₁ => ?_
    exact (inventory.takeAttributes parts h₁.1.objects _).bind fun seen₂ ps h₂ =>
      pure (entered rfl .named (h₁.1.append inventory h₂))
  · split
    · exact atom rfl
    · refine read fun s _ => lift (resolving.present _ _ _) fun d => ?_
      refine (parts _ seen fresh).bind fun seen₁ p h₁ => ?_
      refine (parts _ seen₁ h₁.1.objects).bind fun seen₂ q h₂ => ?_
      exact leave (fun _ => rfl) (fun _ => .scalar) (h₁.1.append inventory h₂.1)
  · refine lift (resolving.wrapped [] _ _) fun _ => lift (resolving.wrapped [] _ _) fun t => ?_
    refine enter rfl fun fresh => ?_
    have inner : Inventories I E (ofWrapped f next) := by
      intro v seen fresh
      unfold ofWrapped
      split
      · exact parts v seen fresh
      · exact types v seen fresh
    exact (inner t _ fresh).bind fun seen₁ p h => pure (entered rfl .wrapper h.1)
  · refine readType (resolving.type [] _) fun t s₀ s run holds₀ holds => ?_
    refine enter rfl fun fresh => (inventory.takePart parts fresh _).bind fun seen₁ p₁ h₁ => ?_
    refine (inventory.takePart parts h₁.1.objects _).bind fun seen₂ p₂ h₂ => ?_
    refine (inventory.takePart parts h₂.1.objects _).bind fun seen₃ p₃ h₃ => ?_
    refine (inventory.takePart parts h₃.1.objects _).bind fun seen₄ p₄ h₄ => ?_
    refine (types t seen₄ h₄.1.objects).bind fun seen₅ p₅ h₅ => ?_
    refine (inventory.takeAttributes parts h₅.1.objects _).bind fun seen₆ p₆ h₆ => pure ?_
    refine entered rfl (.argument run holds₀ holds h₃.2 h₄.2 h₅.2.constant) ?_
    exact ((((h₁.1.append inventory h₂.1).append inventory h₃.1).append inventory h₄.1).append
      inventory h₅.1).append inventory h₆
  · exact read fun s _ => inventory.takeFields parts fresh new .directive _ _ _ _
      (fun _ _ _ _ _ => rfl) .directive
  · exact throw _
  · exact atom (by cases v <;> first | rfl | simp_all)

theorem takeRound (types : Inventories I E next) (n : Nat) :
    Inventories I E (Snapshot.takeRound Deferred.supplier next n) := by
  induction n with
  | zero => exact fun _ _ _ => throw _
  | succ n ih =>
    intro v seen fresh s holds
    cases found : number? v seen with
    | some k =>
      rw [takeRound_of_met found]
      exact ⟨holds, .bare inventory fresh (.again found), .again fresh found⟩
    | none =>
      rw [takeRound_of_new found]
      exact inventory.takeObject ih types fresh found s holds

theorem takeWithin (n : Nat) : Inventories I E (Snapshot.takeWithin Deferred.supplier n) := by
  induction n with
  | zero => exact fun _ _ _ => throw _
  | succ n ih =>
    intro v seen fresh s holds
    obtain ⟨m, -, bound⟩ := Action.boundedPairs_succ (s := s) v.depth fun m =>
      Snapshot.takeRound Deferred.supplier (Snapshot.takeWithin Deferred.supplier n) m v seen
    rw [show Snapshot.takeWithin Deferred.supplier (n + 1) v seen s = _ from bound]
    exact inventory.takeRound ih _ v seen fresh s holds

/-- What a picture shows was met, in rounds of some number. -/
theorem take {s s' : Session} (holds : I s)
    (run : Snapshot.take Deferred.supplier v s = .ok p s') :
    ∃ n met, Snapshot.takeWithin Deferred.supplier (n + 1) v [] s = .ok (p, met) s' ∧ I s' ∧
      Inventoried E [] met p.nodes := by
  obtain ⟨n, -, bound⟩ := Action.boundedPairs_succ (s := s) v.depth fun n => do
    return (← (Snapshot.takeWithin Deferred.supplier n v).run []).1
  obtain ⟨⟨taken, met⟩, u, run, returned⟩ := Action.ok_of_bind (bound.symm.trans run)
  cases returned
  obtain ⟨holds', shown, -⟩ :=
    (inventory.takeWithin (n + 1) v [] (List.forall_mem_nil _)).of_ok holds run
  exact ⟨n, met, run, holds', shown⟩

end Inventory

end Snapshot

end DirectiveSchema

import DirectiveSchema.Proofs.Inventory

/-!
The directives in a picture. Those that were met are numbered among all objects that were, each of
them once. One that is reached again inside itself is not known yet at that time, since it is
numbered after its parts: it is pictured anew, over the picture that got the number.
-/
namespace DirectiveSchema

/-- Whether an object gets its number in a slot. -/
def Slot.isNew : Slot → Bool
  | .new _ => true
  | .old _ => false

namespace Snapshot

variable {seen seen' seen'' : List Value} {v : Value} {ps qs : List Snapshot}

/-! ### Pictures of directives -/

/-- The slot of a picture, if it is that of a directive. -/
def directiveSlot? : Snapshot → Option Slot
  | .directive slot _ _ _ _ => some slot
  | _ => none

/-- Whether a picture is that of a directive. -/
def isDirective (p : Snapshot) : Bool := p.directiveSlot?.isSome

/-- Whether a directive gets its number with a picture. -/
def isFirst (p : Snapshot) : Bool := p.directiveSlot?.any Slot.isNew

/-- Whether a directive that is pictured has its number already. -/
def isAgain (p : Snapshot) : Bool := p.directiveSlot?.any fun slot => !slot.isNew

theorem countP_isDirective (ps : List Snapshot) :
    ps.countP isDirective = ps.countP isFirst + ps.countP isAgain := by
  induction ps with
  | nil => rfl
  | cons p ps ih =>
    have one : (if p.isDirective then 1 else 0) =
        (if p.isFirst then 1 else 0) + if p.isAgain then 1 else 0 := by
      cases found : p.directiveSlot? with
      | none => simp [isDirective, isFirst, isAgain, found]
      | some slot => cases slot <;> simp [isDirective, isFirst, isAgain, found, Slot.isNew]
    rw [List.countP_cons, List.countP_cons, List.countP_cons, ih, one]
    omega

/-- The number of the directive lies on another picture inside a picture. -/
def Encloses (k : Nat) (p : Snapshot) : Prop :=
  ∃ q ∈ p.nodes.tail, q.directiveSlot? = some (.new k)

/-- Pictures that were taken while more objects were met: each directive among these is pictured
once under its number, and any other picture of a directive encloses that of the number. -/
structure Enumerates (seen seen' : List Value) (ps : List Snapshot) : Prop where
  later : seen <:+ seen'
  distinct : seen.Pairwise (fun x y => y.same x = false) →
    seen'.Pairwise fun x y => y.same x = false
  once : seen'.countP Value.isDirective = seen.countP Value.isDirective + ps.countP isFirst
  numbered {k : Nat} {d : Ref .directive} : seen.length ≤ k →
    seen'.reverse[k]? = some (.directive d) → ∃ p ∈ ps, p.directiveSlot? = some (.new k)
  again {p : Snapshot} {k : Nat} : p ∈ ps → p.directiveSlot? = some (.old k) →
    p.Encloses k ∧ ∃ d, seen'.reverse[k]? = some (.directive d)

namespace Enumerates

theorem nil (seen : List Value) : Enumerates seen seen [] where
  later := List.suffix_rfl
  distinct := id
  once := rfl
  numbered after met := absurd (lt_length_of_met met) (Nat.not_lt.2 after)
  again among := absurd among List.not_mem_nil

theorem append (h : Enumerates seen seen' ps) (h' : Enumerates seen' seen'' qs) :
    Enumerates seen seen'' (ps ++ qs) where
  later := h.later.trans h'.later
  distinct := h'.distinct ∘ h.distinct
  once := by rw [h'.once, h.once, List.countP_append, Nat.add_assoc]
  numbered {k d} after met := by
    rcases Nat.lt_or_ge k seen'.length with old | new
    · have found : seen'.reverse[k]? = some (.directive d) := by
        obtain ⟨more, rfl⟩ := h'.later
        rwa [reverse_append_left more seen' old] at met
      obtain ⟨p, hp, slot⟩ := h.numbered after found
      exact ⟨p, List.mem_append_left qs hp, slot⟩
    · obtain ⟨p, hp, slot⟩ := h'.numbered new met
      exact ⟨p, List.mem_append_right ps hp, slot⟩
  again among slot := by
    rcases List.mem_append.1 among with hp | hp
    · obtain ⟨encloses, d, met⟩ := h.again hp slot
      exact ⟨encloses, d, reverse_of_suffix h'.later met⟩
    · exact h'.again hp slot

/-- A picture that is not one of a directive. -/
theorem cons {p : Snapshot} (other : p.directiveSlot? = none) (h : Enumerates seen seen' ps) :
    Enumerates seen seen' (p :: ps) where
  later := h.later
  distinct := h.distinct
  once := by
    rw [h.once, List.countP_cons_of_neg]
    simp [isFirst, other]
  numbered after met := by
    obtain ⟨q, hq, slot⟩ := h.numbered after met
    exact ⟨q, List.mem_cons_of_mem p hq, slot⟩
  again {q k} among slot := by
    rcases List.mem_cons.1 among with rfl | hq
    · rw [other] at slot
      cases slot
    · exact h.again hq slot

end Enumerates

theorem same_eq_false_of_number? (new : number? v seen = none) {x : Value} (hx : x ∈ seen) :
    x.same v = false := by
  induction seen with
  | nil => exact absurd hx List.not_mem_nil
  | cons u seen ih =>
    rw [number?] at new
    split at new
    · cases new
    · rcases List.mem_cons.1 hx with rfl | hx
      · exact Bool.eq_false_iff.2 ‹_›
      · exact ih new hx

/-- An object that is no directive is met. -/
theorem Enumerates.met (new : number? v seen = none) (other : v.isDirective = false) :
    Enumerates seen (v :: seen) [] where
  later := List.suffix_cons v seen
  distinct pairwise := List.pairwise_cons.2 ⟨fun _ => same_eq_false_of_number? new, pairwise⟩
  once := by
    rw [List.countP_cons_of_neg (by simp [other])]
    rfl
  numbered {k d} after found := by
    rcases Nat.eq_or_lt_of_le after with rfl | more
    · rw [reverse_cons_length] at found
      cases found
      cases other
    · exact absurd (lt_length_of_met found) (Nat.not_lt.2 more)
  again among := absurd among List.not_mem_nil

/-- An object that is no directive is left after its parts. -/
theorem Enumerates.left (h : Enumerates seen seen' ps) (other : v.isDirective = false) :
    Enumerates seen (slotOf v seen').2 ps := by
  rw [slotOf]
  split
  · exact h
  · exact List.append_nil ps ▸ h.append (.met ‹_› other)

/-- A directive is left after its parts. It is known by then only if it was met among them. -/
theorem Enumerates.directive {d : Ref .directive} {name locations args description : Snapshot}
    (new : number? (.directive d) seen = none)
    (h : Enumerates seen seen'
      (name.nodes ++ locations.nodes ++ args.nodes ++ description.nodes)) :
    Enumerates seen (slotOf (.directive d) seen').2
      (Snapshot.directive (slotOf (.directive d) seen').1 name locations args description).nodes := by
  rw [slotOf]
  cases found : number? (.directive d) seen' with
  | some k =>
    refine ⟨h.later, h.distinct, ?_, fun after met => ?_, fun {p j} among slot => ?_⟩
    · exact h.once
    · obtain ⟨q, hq, slot⟩ := h.numbered after met
      exact ⟨q, List.mem_cons_of_mem _ hq, slot⟩
    · rcases List.mem_cons.1 among with rfl | hp
      · cases slot
        obtain ⟨x, met, same⟩ := met_of_number? found
        have directive : x = .directive d := by
          cases x <;> first | cases same | exact congrArg _ (by simpa [Value.same] using same)
        subst directive
        rcases Nat.lt_or_ge k seen.length with old | after
        · obtain ⟨more, rfl⟩ := h.later
          rw [reverse_append_left more seen old] at met
          have among := List.mem_reverse.1 (List.mem_of_getElem? met)
          exact absurd among (not_mem_of_number? new)
        · exact ⟨h.numbered after met, d, met⟩
      · exact h.again hp slot
  | none =>
    refine ⟨h.later.trans (List.suffix_cons _ _), fun pairwise => ?_, ?_, fun {k e} after met => ?_,
      fun {p j} among slot => ?_⟩
    · exact List.pairwise_cons.2 ⟨fun _ => same_eq_false_of_number? found, h.distinct pairwise⟩
    · rw [nodes, List.countP_cons_of_pos rfl, List.countP_cons_of_pos rfl, h.once, Nat.add_assoc]
    · rcases Nat.lt_trichotomy k seen'.length with old | rfl | beyond
      · rw [reverse_cons_of_lt _ _ old] at met
        obtain ⟨q, hq, slot⟩ := h.numbered after met
        exact ⟨q, List.mem_cons_of_mem _ hq, slot⟩
      · exact ⟨_, List.mem_cons_self, rfl⟩
      · exact absurd (lt_length_of_met met) (Nat.not_lt.2 beyond)
    · rcases List.mem_cons.1 among with rfl | hp
      · cases slot
      · obtain ⟨encloses, e, met⟩ := h.again hp slot
        exact ⟨encloses, e, reverse_of_suffix (List.suffix_cons _ _) met⟩

/-! ### Taking pictures -/

theorem Enters.directiveSlot?_eq {I : Session → Prop} {p : Snapshot} {k : Nat}
    (h : Enters I k v p) : v.isDirective = false ∧ p.directiveSlot? = none := by
  cases h <;> exact ⟨rfl, rfl⟩

/-- Pictures enumerate the directives that are met, whatever the session is like. -/
theorem enumerating : Inventory (fun _ => True) Enumerates where
  resolving :=
    { Upholds.lasting with
      wrapped := fun _ _ _ _ => id
      type := fun _ _ _ => id }
  nil := .nil
  append := .append
  bare {seen p} bare := by
    have other : p.directiveSlot? = none := by cases bare <;> rfl
    exact (Enumerates.nil seen).cons other
  entered new enters h := by
    obtain ⟨other, plain⟩ := enters.directiveSlot?_eq
    exact ((Enumerates.met new other).append h).cons plain
  left {seen seen' v p ps} new h nodes leaves := by
    rw [← nodes]
    cases leaves with
    | directive =>
      obtain ⟨-, rfl⟩ := List.cons.inj nodes
      exact h.directive new
    | _ =>
      rw [nodes]
      exact (h.left rfl).cons rfl

end Snapshot

end DirectiveSchema

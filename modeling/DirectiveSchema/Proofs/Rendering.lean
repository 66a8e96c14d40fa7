import DirectiveSchema.Proofs.Writing
import Mathlib.Logic.Relation

/-!
Texts of data that may hold themselves. A container that is met inside itself is not entered again,
so those that are being written are different objects, and there are no more of them than the
session has. Plain data are therefore written whatever shape they have, unless an integer among them
is too long.
-/
namespace DirectiveSchema

variable {α β : Type} {s : Session} {supply : Supplier} {v x : Value}

/-- An action that leaves the session as it is, and returns a result of one kind or ends in a fault
of one kind. -/
def Action.Concludes (s : Session) (act : Action α) (good : α → Prop) (bad : Fault → Prop) : Prop :=
  (∃ a, good a ∧ act s = .ok a s) ∨ ∃ f, bad f ∧ act s = .error f s

namespace Action.Concludes

variable {act : Action α} {good : α → Prop} {bad bad' : Fault → Prop}

theorem pure {a : α} (h : good a) : Concludes s (Pure.pure a : Action α) good bad :=
  .inl ⟨a, h, rfl⟩

theorem throw {f : Fault} (h : bad f) : Concludes s (throw f : Action α) good bad :=
  .inr ⟨f, h, rfl⟩

theorem bind {f : α → Action β} {good' : β → Prop} (first : Concludes s act good bad)
    (rest : ∀ a, good a → Concludes s (f a) good' bad) : Concludes s (act >>= f) good' bad := by
  rcases first with ⟨a, h, run⟩ | ⟨e, h, run⟩
  · rcases rest a h with ⟨b, h', next⟩ | ⟨e, h', next⟩
    · exact .inl ⟨b, h', (bind_of_ok run).trans next⟩
    · exact .inr ⟨e, h', (bind_of_ok run).trans next⟩
  · exact .inr ⟨e, h, bind_of_error run⟩

/-- A fault of either kind is of the kind that an action may end in. -/
theorem weaken (h : Concludes s act good bad) (more : ∀ f, bad f → bad' f) :
    Concludes s act good bad' :=
  h.imp_right fun ⟨f, fault, run⟩ => ⟨f, more f fault, run⟩

theorem mapM {f : α → Action β} {as : List α}
    (h : ∀ a ∈ as, Concludes s (f a) (fun _ => True) bad) :
    Concludes s (as.mapM f) (fun _ => True) bad := by
  induction as with
  | nil => exact pure trivial
  | cons a as ih =>
    rw [List.mapM_cons]
    refine (h a List.mem_cons_self).bind fun b _ => ?_
    exact (ih fun c hc => h c (List.mem_cons_of_mem a hc)).bind fun bs _ => pure trivial

end Action.Concludes

/-- A datum that has no parts and is no type. -/
def Value.isLeaf : Value → Bool
  | .null | .bool _ | .int _ | .float _ | .text _ | .bytes _ | .location _ => true
  | _ => false

namespace Session

/-- A plain datum, whatever its parts are. -/
def IsDatum (s : Session) (v : Value) : Prop :=
  match s.body? v with
  | none => v.isLeaf = true
  | some b => b.isData = true

/-- Plain data through and through. They may hold themselves. -/
def IsData (s : Session) (v : Value) : Prop :=
  ∀ x, Relation.ReflTransGen (fun v x => x ∈ s.parts v) v x → s.IsDatum x

theorem IsData.isDatum (h : s.IsData v) : s.IsDatum v := h v .refl

theorem IsData.part (h : s.IsData v) (hx : x ∈ s.parts v) : s.IsData x :=
  fun y below => h y (.head hx below)

theorem isData_of_isLeaf (leaf : v.isLeaf = true) : s.IsData v := by
  have atomic : s.body? v = none := by cases v <;> first | rfl | cases leaf
  intro x below
  rcases below.cases_head with rfl | ⟨y, part, -⟩
  · rwa [IsDatum, atomic]
  · rw [parts_of_none atomic] at part
    cases part

end Session

namespace Display

/-- Writing ends in a text, unless an integer is too long. -/
abbrev Writes (s : Session) (act : Action String) : Prop :=
  act.Concludes s (fun _ => True) (· = .integerTooLong)

theorem writes_integer (n : Int) : Writes s (integer n) := by
  simp only [integer]
  split
  · exact .throw rfl
  · exact .pure trivial

/-- What is written inside a container: nothing, if the container is being written already. -/
theorem writes_enter {mark : String} {body : Supplier → Action String}
    (h : supply.isWriting v = false → Writes s (body (supply.within v))) :
    Writes s (enter supply v mark body) := by
  unfold enter
  cases entered : supply.isWriting v with
  | true => exact .pure trivial
  | false => exact h entered

/-- The induction is on the bound. The objects on the path from the datum that is written are being
written, so none of them is entered again, and each one that joins them uses up room. -/
theorem writes_write (h : s.IsData v) {form : Form} {n : Nat} {path : List Value}
    (nodup : path.Nodup) (among : path ⊆ s.objects)
    (entered : ∀ p ∈ path, supply.isWriting p = true)
    (room : (s.objects.length - path.length) * (s.depth + 1) + v.depth + 1 ≤ n) :
    Writes s (write n supply form v) := by
  induction n generalizing v supply form path with
  | zero => omega
  | succ n ih =>
    have datum := h.isDatum
    have inner {x : Value} (hx : x ∈ s.parts v) (fresh : supply.isWriting v = false) :
        Writes s (write n (supply.within v) .literal x) := by
      rcases Session.parts_cases hx with less | ⟨object, held⟩
      · exact ih (h.part hx) nodup among
          (fun p hp => Supplier.isWriting_within_of_isWriting (entered p hp)) (by omega)
      · have new : v ∉ path := fun hv => by
          rw [entered v hv] at fresh
          cases fresh
        have nodup' : (v :: path).Nodup := List.nodup_cons.2 ⟨new, nodup⟩
        have among' : v :: path ⊆ s.objects := List.cons_subset.2 ⟨object, among⟩
        have fits : path.length + 1 ≤ s.objects.length :=
          List.Nodup.length_le_of_subset nodup' among'
        have shallow : x.depth ≤ s.depth := Value.depth_le_depths held
        refine ih (h.part hx) nodup' among' (fun p hp => ?_) ?_
        · rcases List.mem_cons.1 hp with rfl | hp
          · exact Supplier.isWriting_within supply p
          · exact Supplier.isWriting_within_of_isWriting (entered p hp)
        · obtain ⟨left, count⟩ : ∃ left, s.objects.length = left + (path.length + 1) :=
            ⟨_, (Nat.sub_add_cancel fits).symm⟩
          have before : s.objects.length - path.length = left + 1 := by omega
          have after : s.objects.length - (v :: path).length = left := by
            rw [count]
            exact Nat.add_sub_cancel _ _
          rw [before, Nat.succ_mul] at room
          rw [after]
          omega
    cases body : s.body? v with
    | none =>
      rw [Session.IsDatum, body] at datum
      cases v with
      | int i => exact writes_integer i
      | null | bool | float | text | bytes | location => exact .pure trivial
      | _ => cases datum
    | some b =>
      rw [Session.IsDatum, body] at datum
      rw [Session.parts_of_body body] at inner
      have made := Session.makes_of_body body
      cases b with
      | tuple items =>
        obtain ⟨tag, rfl⟩ := made
        simp only [write]
        refine writes_enter fun fresh => ?_
        exact (Action.Concludes.mapM fun x hx => inner hx fresh).bind fun _ _ => .pure trivial
      | config name locations args description =>
        obtain ⟨tag, rfl⟩ := made
        have field {x : Value} (hx : x ∈ [name, locations, args, description]) :
            Writes s (write n supply .literal x) := by
          have part : x ∈ s.parts (.config tag name locations args description) := hx
          rcases Session.parts_cases part with less | ⟨object, -⟩
          · exact ih (h.part part) nodup among entered (by omega)
          · simp [Session.objects] at object
        simp only [write]
        refine (field (by simp)).bind fun _ _ => ?_
        refine (field (by simp)).bind fun _ _ => ?_
        refine (field (by simp)).bind fun _ _ => ?_
        exact (field (by simp)).bind fun _ _ => .pure trivial
      | list items =>
        obtain ⟨r, rfl, -, rfl⟩ := made
        simp only [write]
        refine writes_enter fun fresh => ?_
        have items : Action.Concludes s ((s.list r).mapM (write n (supply.within (.list r)) .literal))
            (fun _ => True) (· = .integerTooLong) := .mapM fun x hx => inner hx fresh
        exact items.bind fun _ _ => .pure trivial
      | set members =>
        obtain ⟨r, rfl, -, rfl⟩ := made
        simp only [write]
        refine writes_enter fun fresh => ?_
        have members : Action.Concludes s ((s.set r).mapM fun m =>
            write n (supply.within (.set r)) .literal m.value) (fun _ => True)
            (· = .integerTooLong) := .mapM fun m hm => inner (List.mem_map_of_mem hm) fresh
        exact members.bind fun _ _ => .pure trivial
      | dict entries =>
        obtain ⟨r, rfl, -, rfl⟩ := made
        simp only [write]
        refine writes_enter fun fresh => ?_
        have entries : Action.Concludes s ((s.dict r).mapM fun e => do
            let key ← write n (supply.within (.dict r)) .literal e.key
            return key ++ ": " ++ (← write n (supply.within (.dict r)) .literal e.value))
            (fun _ => True) (· = .integerTooLong) := by
          refine .mapM fun e he => ?_
          have part {x : Value} (hx : x ∈ e.contents) :
              Writes s (write n (supply.within (.dict r)) .literal x) :=
            inner (List.mem_flatMap.2 ⟨e, he, hx⟩) fresh
          refine (part (by simp [Entry.contents])).bind fun _ _ => ?_
          exact (part (by simp [Entry.contents])).bind fun _ _ => .pure trivial
        exact entries.bind fun _ _ => .pure trivial
      | wrapper | argument | directive => cases datum

/-- The bound of a walk is enough for whatever may be written at first. -/
theorem writes_bounded (h : s.IsData v) (form : Form) :
    Writes s (Action.boundedPairs v.depth fun n => write n supply form v) :=
  writes_write h List.nodup_nil (List.nil_subset _) (fun _ hp => absurd hp List.not_mem_nil)
    (s.bound_le v.depth)

theorem writes_label (h : s.IsData v) : Writes s (label supply v) := writes_bounded h .label

theorem writes_literal (h : s.IsData v) : Writes s (literal supply v) := by
  unfold literal
  split
  · have datum := h.isDatum
    unfold Session.IsDatum at datum
    split at datum
    · cases datum
    · rename_i body
      obtain ⟨d, -, rfl⟩ := Option.map_eq_some_iff.1 body
      cases datum
  · exact writes_bounded h .literal

end Display

end DirectiveSchema

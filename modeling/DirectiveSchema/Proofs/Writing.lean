import DirectiveSchema.Proofs.Likeness

/-!
Texts of plain data. Data that are made of atoms, tuples, records, lists, sets and dictionaries can
be written as long as no integer among them is too long.
-/
namespace DirectiveSchema

variable {s : Session} {supply : Supplier} {v x y : Value} {m n : Nat}

/-- Whether an object is made of plain data, if its parts are. -/
def Body.isData : Body → Bool
  | .tuple _ | .config _ _ _ _ | .list _ | .set _ | .dict _ => true
  | _ => false

theorem Body.Fits.isData_eq {b c : Body} (h : b.Fits c) : b.isData = c.isData := by
  cases b <;> cases c <;> first | rfl | exact h.elim

/-- An integer that is written in digits. -/
def Display.isShort (n : Int) : Prop := (Nat.toDigits 10 n.natAbs).length ≤ integerDigitLimit

/-- What is needed of a datum and of its parts for a text to be made of it. -/
def Session.Writes (s : Session) (v : Value) : Prop :=
  match s.body? v with
  | none => v.isAtom = true ∧ v.isScalar = false ∧ ∀ n, v = .int n → Display.isShort n
  | some b => b.isData = true

/-- An action that returns and leaves the session as it is. -/
def Action.Reads {α : Type} (s : Session) (x : Action α) : Prop := ∃ a, x s = .ok a s

namespace Action.Reads

variable {α β : Type}

theorem pure (s : Session) (a : α) : Reads s (Pure.pure a : Action α) := ⟨a, rfl⟩

theorem bind {x : Action α} {f : α → Action β} (first : Reads s x) (rest : ∀ a, Reads s (f a)) :
    Reads s (x >>= f) := by
  obtain ⟨a, run⟩ := first
  obtain ⟨b, next⟩ := rest a
  exact ⟨b, (bind_of_ok run).trans next⟩

theorem mapM {f : α → Action β} {as : List α} (h : ∀ a ∈ as, Reads s (f a)) :
    Reads s (as.mapM f) := by
  induction as with
  | nil => exact pure s []
  | cons a as ih =>
    rw [List.mapM_cons]
    refine (h a List.mem_cons_self).bind fun b => ?_
    exact (ih fun c hc => h c (List.mem_cons_of_mem a hc)).bind fun bs => pure s (b :: bs)

end Action.Reads

namespace Display

end Display

/-- What is like something that can be written can be written. -/
theorem Session.Alike.writes (h : s.Alike n x y) (writes : s.Nests Session.Writes m y) :
    s.Nests Session.Writes n x := by
  induction n generalizing x y m with
  | zero => cases h
  | succ n ih =>
    rcases h with ⟨rfl, atom⟩ | ⟨b, c, left, right, fits, parts⟩
    · exact .of_isAtom atom writes.holds n
    · have data := writes.holds
      rw [Session.Writes, right] at data
      refine ⟨by rw [Session.Writes, left]; exact fits.isData_eq.trans data, fun z hz => ?_⟩
      rw [parts_of_body left] at hz
      obtain ⟨u, hu, like⟩ := exists_right parts hz
      cases m with
      | zero => cases writes
      | succ m => exact ih like (writes.2 u (by rwa [parts_of_body right]))

end DirectiveSchema

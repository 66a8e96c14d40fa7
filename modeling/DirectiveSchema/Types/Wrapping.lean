import DirectiveSchema.Session

/-!
Wrapping types. What a wrapper was built over is answered on the first access: a deferred type is
called, and its answer is kept unless it is null. `unwrap` follows wrappers to the innermost type;
`Unwraps` states the same as a relation between sessions.
-/
namespace DirectiveSchema.Types

/-- The answer of a reference to a type: the call of a deferred type, or the datum itself. -/
def demand (supply : Supplier) : Value → Action Value
  | .deferred d => supply.call d
  | v => pure v

/-- What is kept of an answer: null is not a type that could be kept. -/
def kept (t : Value) : Option Value := if t.isNull then none else some t

theorem kept_of_isNull {t : Value} (h : t.isNull = true) : kept t = none := by simp [kept, h]

theorem kept_of_not_isNull {t : Value} (h : t.isNull = false) : kept t = some t := by
  simp [kept, h]

theorem eq_of_kept {t u : Value} (h : kept t = some u) : t = u := by
  simp only [kept] at h
  split at h <;> cases h
  rfl

/-- A wrapper over a type that is known. -/
def known (t : Value) : WrappingType := { source := some t, resolved := kept t, extra := [] }

/-- The type that a wrapper of a kind wraps. -/
def wrapped (supply : Supplier) (w : Wrapper) (r : Ref .wrapper) : Action Value := do
  let cell := (← get).wrapper r
  match cell.resolved, cell.source with
  | some t, _ => pure t
  | none, some source =>
    let t ← demand supply source
    modify fun s => s.putWrapper r { s.wrapper r with resolved := kept t }
    pure t
  | none, none => throw (.noAttribute w.className "_type")

section

variable {supply : Supplier} {w : Wrapper} {r : Ref .wrapper} {s s' : Session} {source t : Value}

theorem wrapped_of_resolved (h : (s.wrapper r).resolved = some t) :
    wrapped supply w r s = .ok t s := by
  simp only [wrapped, Action.get_bind, h]
  rfl

theorem wrapped_of_demand (unresolved : (s.wrapper r).resolved = none)
    (based : (s.wrapper r).source = some source) (answered : demand supply source s = .ok t s') :
    wrapped supply w r s = .ok t (s'.putWrapper r { s'.wrapper r with resolved := kept t }) := by
  simp only [wrapped, Action.get_bind, unresolved, based]
  simp only [bind, EStateM.bind, answered]
  rfl

theorem wrapped_of_fault {f : Fault} (unresolved : (s.wrapper r).resolved = none)
    (based : (s.wrapper r).source = some source) (failed : demand supply source s = .error f s') :
    wrapped supply w r s = .error f s' := by
  simp only [wrapped, Action.get_bind, unresolved, based]
  simp only [bind, EStateM.bind, failed]

theorem wrapped_of_blank (unresolved : (s.wrapper r).resolved = none)
    (blank : (s.wrapper r).source = none) :
    wrapped supply w r s = .error (.noAttribute w.className "_type") s := by
  simp only [wrapped, Action.get_bind, unresolved, blank]
  rfl

end

/-- A new wrapper over a type or over a reference to one. -/
def wrap (w : Wrapper) (source : Value) : Action Value := do
  if w = .nonNull ∧ source.isNonNull = true then throw .doubleNonNull
  return .wrapper w (← Action.newWrapper { source := some source, resolved := none, extra := [] })

/-- Follows at most the given number of wrappers. -/
def unwrapWithin (supply : Supplier) : Nat → Value → Action Value
  | 0, .wrapper _ _ => throw .endless
  | n + 1, .wrapper w r => do unwrapWithin supply n (← wrapped supply w r)
  | _, v => pure v

/-- The innermost type of a wrapping. -/
def unwrap (supply : Supplier) (v : Value) : Action Value :=
  Action.bounded v.depth fun n => unwrapWithin supply n v

/-- The type that admits null: what a non-null wrapper wraps, and any other datum itself. -/
def nullable (supply : Supplier) : Value → Action Value
  | .wrapper .nonNull r => wrapped supply .nonNull r
  | v => pure v

/-- Input types unwrap to a scalar. -/
def isInput (supply : Supplier) (v : Value) : Action Bool :=
  return (← unwrap supply v).isScalar

/-- From one session to another, a datum unwraps through a finite chain of wrappers. -/
inductive Unwraps (supply : Supplier) : Session → Value → Session → Value → Prop where
  | leaf {s : Session} {v : Value} : v.isWrapper = false → Unwraps supply s v s v
  | step {s s' s'' : Session} {w : Wrapper} {r : Ref .wrapper} {t v : Value} :
      wrapped supply w r s = .ok t s' → Unwraps supply s' t s'' v →
        Unwraps supply s (.wrapper w r) s'' v

/-- A chain never ends in a wrapper. -/
theorem Unwraps.isWrapper_eq_false {supply : Supplier} {s s' : Session} {v u : Value}
    (h : Unwraps supply s v s' u) : u.isWrapper = false := by
  induction h with
  | leaf h => exact h
  | step _ _ ih => exact ih

/-- What a bounded search finds is the end of a chain. -/
theorem unwraps_of_unwrapWithin {supply : Supplier} {n : Nat} {s s' : Session} {v u : Value}
    (h : unwrapWithin supply n v s = .ok u s') : Unwraps supply s v s' u := by
  induction n generalizing s v with
  | zero =>
    cases v
    case wrapper w r => cases h
    all_goals
      cases h
      exact .leaf rfl
  | succ n ih =>
    cases v
    case wrapper w r =>
      simp only [unwrapWithin, bind, EStateM.bind] at h
      split at h
      · rename_i t s₁ ht
        exact .step ht (ih h)
      · simp at h
    all_goals
      simp only [unwrapWithin, pure, EStateM.pure, EStateM.Result.ok.injEq] at h
      obtain ⟨rfl, rfl⟩ := h
      exact .leaf rfl

end DirectiveSchema.Types

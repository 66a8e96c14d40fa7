import DirectiveSchema.Proofs.Chains
import DirectiveSchema.Proofs.Nullability

/-!
Unwrapping. What a type is wrapped in, at once or through references, does not matter for the type
that it unwraps to. Whichever is asked first, the innermost type is found; from then on the type, all
that it is wrapped in and the innermost type itself unwrap to this one object, so that they are input
types alike.
-/
namespace DirectiveSchema

variable {α : Type} {answer answer' : List Value → Deferred → Action Value}
  {b s s' u : Session} {t v x y : Value} {W W' : Census} {n m : Nat} {ws : List Wrapper}
  {p : Subject}

/-! ### Types that unwrap again -/

namespace Candid

/-- The end of a chain that was found is found again with as much room. -/
theorem recurs_unwrapWithin (h : Candid answer) (h' : Candid answer') (places places' : List Value)
    (le : n ≤ m) (belongs : v.Belongs W) :
    W.Recurs (Types.unwrapWithin ⟨places, answer⟩ n v)
      (Types.unwrapWithin ⟨places', answer'⟩ m v) := by
  induction n generalizing m v W with
  | zero =>
    cases v with
    | wrapper => exact .throw _
    | _ => cases m <;> exact .pure _
  | succ n ih =>
    obtain ⟨m, rfl⟩ : ∃ k, m = k + 1 := ⟨m - 1, by omega⟩
    cases v with
    | wrapper w r =>
      have wrapped := h.recurs_wrapped h' places places' w (belongs.counted (i := r.index) rfl)
      refine wrapped.bind (h.toAnswers.wrapped places w r) (fun t => ?_) fun W' _ t held => ?_
      · exact h.observed.unwrapWithin places n t
      · exact ih (Nat.le_of_succ_le_succ le) held
    | _ => exact .pure _

theorem recurs_unwrap (h : Candid answer) (h' : Candid answer') (places places' : List Value)
    (belongs : v.Belongs W) :
    W.Recurs (Types.unwrap ⟨places, answer⟩ v) (Types.unwrap ⟨places', answer'⟩ v) :=
  .bounded (fun n => h.observed.unwrapWithin places n v) fun _ _ le =>
    h.recurs_unwrapWithin h' places places' le belongs

end Candid

theorem Types.isInput_of_unwrap {supply : Supplier} (h : unwrap supply v s = .ok t s') :
    isInput supply v s = .ok t.isScalar s' := Action.bind_of_ok h

theorem Types.unwrap_of_single (single : v.isWrapper = false) (supply : Supplier) (s : Session) :
    unwrap supply v s = .ok v s := by
  rw [unwrap, Action.bounded_succ]
  cases v <;> first | rfl | cases single

/-! ### What unwraps alike -/

namespace Session

/-- The chain of wrappers of a type ends, wherever it is followed. -/
def Ends (s : Session) (v : Value) : Prop :=
  ∀ s', s.Leads s' → ∃ t s'', Types.Unwraps Deferred.supplier s' v s'' t

/-- From a session on, a datum unwraps to an object, and is an input type if that is a scalar. -/
def UnwrapsTo (s : Session) (v t : Value) : Prop :=
  ∀ s', s.Leads s' → ∃ s'', Types.unwrap Deferred.supplier v s' = .ok t s'' ∧
    Types.isInput Deferred.supplier v s' = .ok t.isScalar s''

/-- When one of two data is unwrapped whose chain of wrappers ends, its innermost type is found, and
both unwrap to it from then on, as it does itself. -/
def UnwrapsAlike (s : Session) (x y : Value) : Prop :=
  ∀ v ∈ [x, y], ∀ s' t s'', s.Leads s' → Types.Unwraps Deferred.supplier s' v s'' t →
    t.isWrapper = false ∧ Types.unwrap Deferred.supplier v s' = .ok t s'' ∧
      Types.isInput Deferred.supplier v s' = .ok t.isScalar s'' ∧
        s''.UnwrapsTo x t ∧ s''.UnwrapsTo y t ∧ s''.UnwrapsTo t t

theorem Leads.fits (h : s.Leads s') (fits : s.Fits W) : ∃ W', W.Extends true W' ∧ s'.Fits W' :=
  h.keeps (Census.observed (W := W)) W (.refl W) fits

theorem UnwrapsTo.single (single : v.isWrapper = false) (s : Session) : s.UnwrapsTo v v :=
  fun s' _ => ⟨s', Types.unwrap_of_single single _ s',
    Types.isInput_of_unwrap (Types.unwrap_of_single single _ s')⟩

/-- What was unwrapped unwraps to the same object from then on. -/
theorem unwrapsTo_of_unwrap (fits : s.Fits W) (belongs : v.Belongs W)
    (run : Types.unwrap Deferred.supplier v s = .ok t s') : s'.UnwrapsTo v t := by
  intro u leads
  have recurs := Candid.supplier.recurs_unwrap Candid.supplier [] [] belongs
  obtain ⟨calls, again⟩ := recurs s t s' fits run u (leads.keeps Candid.supplier.observed)
  exact ⟨_, again, Types.isInput_of_unwrap again⟩

theorem Peels.unwraps {s₁ s₂ : Session} (h : Peels s x ws y s₁)
    (rest : Types.Unwraps Deferred.supplier s₁ y s₂ t) :
    Types.Unwraps Deferred.supplier s x s₂ t := by
  induction h with
  | shut => exact rest
  | step wrapped _ ih => exact .step wrapped (ih rest)

/-- The rest of a chain is what is left to follow when wrappers were taken off. -/
theorem Peels.rest {s₁ s₂ : Session} (h : Peels s x ws y s₁)
    (chain : Types.Unwraps Deferred.supplier s x s₂ t) :
    Types.Unwraps Deferred.supplier s₁ y s₂ t := by
  induction h with
  | shut => exact chain
  | step wrapped _ ih =>
    cases chain with
    | leaf single => cases single
    | step wrapped' chain =>
      cases wrapped.symm.trans wrapped'
      exact ih chain

/-- A chain that is told to end in no wrapper ends, wherever it is followed. -/
theorem Walks.ends (h : b.Walks (.datum x) ws (.datum t)) (fits : b.Fits W)
    (belongs : x.Belongs W) (single : t.isWrapper = false) (traces : b.Traces s) : s.Ends x := by
  intro s' leads
  obtain ⟨-, s'', peels, -⟩ :=
    Stands.peels fits (Traces.lasting.trans traces leads.traces) (.datum belongs) h
  exact ⟨t, s'', peels.unwraps (.leaf single)⟩

/-- What is told to be wrapped can be peeled at any time. -/
theorem Stands.peeled (fits : b.Fits W) (traces : b.Traces s) (h : b.Stands W s p x)
    (walks : b.Walks p ws (.datum y)) (leads : s.Leads u) : ∃ u₁, Peels u x ws y u₁ ∧ u.Leads u₁ :=
  have traces' := Traces.lasting.trans traces leads.traces
  ((h.later traces.extension leads.traces).peels fits traces' walks).2

/-- The chain of what is told to be wrapped ends when that of what it wraps does. -/
theorem Stands.ends (fits : b.Fits W) (traces : b.Traces s) (h : b.Stands W s p x)
    (walks : b.Walks p ws (.datum y)) (ends : s.Ends y) : s.Ends x := by
  intro u leads
  obtain ⟨u₁, peels, leads₁⟩ := h.peeled fits traces walks leads
  obtain ⟨t, u₂, rest⟩ := ends u₁ (leads.trans leads₁)
  exact ⟨t, u₂, peels.unwraps rest⟩

/-- What is told to be wrapped unwraps like what it is told to wrap. -/
theorem Stands.unwrapsAlike (fits : b.Fits W) (traces : b.Traces s) (h : b.Stands W s p x)
    (walks : b.Walks p ws (.datum y)) (more : W.Extends true W') (fits' : s.Fits W')
    (belongs : x.Belongs W') : s.UnwrapsAlike x y := by
  have inner : y.Belongs W' := (h.peels fits traces walks).1.mono more
  have found {v : Value} (held : v.Belongs W') {u u₁ : Session} {t : Value} (leads : s.Leads u)
      (chain : Types.Unwraps Deferred.supplier u v u₁ t) :
      Types.unwrap Deferred.supplier v u = .ok t u₁ ∧ u₁.UnwrapsTo v t := by
    obtain ⟨W₁, more₁, fits₁⟩ := leads.fits fits'
    have run := Types.unwrap_of_unwraps fits₁ (held.mono more₁) chain
    exact ⟨run, unwrapsTo_of_unwrap fits₁ (held.mono more₁) run⟩
  intro v among u t u₁ leads chain
  have single := chain.isWrapper_eq_false
  rcases List.mem_cons.1 among with rfl | among
  · obtain ⟨run, again⟩ := found belongs leads chain
    obtain ⟨u₂, peels, leads₂⟩ := h.peeled fits traces walks leads
    exact ⟨single, run, Types.isInput_of_unwrap run, again,
      (found inner (leads.trans leads₂) (peels.rest chain)).2, .single single u₁⟩
  · obtain rfl := List.mem_singleton.1 among
    obtain ⟨run, again⟩ := found inner leads chain
    have leads₁ : u.Leads u₁ := ((Later.observed _).unwrap [] _).of_ok run
    refine ⟨single, run, Types.isInput_of_unwrap run, fun u' later => ?_, again,
      .single single u₁⟩
    -- What is found under the wrappers, in a session where they are taken off, is found in all.
    have since := leads.trans (leads₁.trans later)
    obtain ⟨u₂, peels, leads₂⟩ := h.peeled fits traces walks since
    obtain ⟨u₃, run', -⟩ := again u₂ (later.trans leads₂)
    have outer := (found belongs since (peels.unwraps (Types.unwraps_of_unwrapWithin run'))).1
    exact ⟨u₃, outer, Types.isInput_of_unwrap outer⟩

end Session

/-! ### Runs -/

mutual

/-- What a datum consists of consists of itself. -/
theorem Value.leaves_of_mem {x v : Value} (h : x ∈ v.leaves) : x.leaves = [x] := by
  cases v with
  | tuple tag items =>
    rw [Value.leaves] at h
    exact Value.leaves_of_mem_all h
  | config tag name locations args description =>
    simp only [Value.leaves, List.mem_append] at h
    rcases h with ((h | h) | h) | h
    · exact Value.leaves_of_mem h
    · exact Value.leaves_of_mem h
    · exact Value.leaves_of_mem h
    · exact Value.leaves_of_mem h
  | _ =>
    obtain rfl := List.mem_singleton.1 h
    rfl

theorem Value.leaves_of_mem_all {x : Value} {vs : List Value} (h : x ∈ Value.leavesAll vs) :
    x.leaves = [x] := by
  cases vs with
  | nil => cases h
  | cons v vs =>
    rw [Value.leavesAll] at h
    rcases List.mem_append.1 h with h | h
    · exact Value.leaves_of_mem h
    · exact Value.leaves_of_mem_all h

end

theorem Session.Fits.belongs (h : s.Fits W) (occurs : s.Occurs x) : x.Belongs W := by
  have listed := h.isListed occurs
  obtain ⟨v, -, among⟩ := occurs
  intro y hy
  rw [Value.leaves_of_mem among, List.mem_singleton] at hy
  exact hy ▸ listed

/-- Whatever types a type is wrapped in, at once or through references, both unwrap alike, and if
the chain of wrappers of the type ends, so does that of what it is wrapped in. This holds of objects
that occur, and of type expressions, which can be evaluated when they are told to lead to a type. -/
theorem wrappings_unwrap_alike (qs : List Request) :
    let s := (BuiltIn.session.runAll qs).2
    (∀ {x t : Value} {ws : List Wrapper}, s.Occurs x → s.Walks (.datum x) ws (.datum t) →
      s.UnwrapsAlike x t ∧ (s.Ends t → s.Ends x)) ∧
    ∀ {e : TypeExpression} {t : Value} {ws : List Wrapper},
      s.Walks (s.subject e.origin) ws (.datum t) →
        ∃ x s', e.eval Deferred.supplier s = .ok x s' ∧
          s'.UnwrapsAlike x t ∧ (s'.Ends t → s'.Ends x) := by
  intro s
  obtain ⟨C, -, -, fits⟩ := BuiltIn.session_fits.runAll qs
  have final : s.Fits (C qs.length) := by simpa using fits qs.length
  refine ⟨fun {x t ws} occurs walks => ?_, fun {e t ws} walks => ?_⟩
  · have belongs := final.belongs occurs
    have stands := Session.Stands.datum (b := s) (s := s) belongs
    exact ⟨stands.unwrapsAlike final (.refl s) walks (.refl _) final belongs,
      stands.ends final (.refl s) walks⟩
  · obtain ⟨x, s', run⟩ : ∃ x s', e.eval Deferred.supplier s = .ok x s' :=
      TypeExpression.eval_of_evaluates Traced.supplier (walks.evaluates (.inl rfl))
    have admits : (C qs.length).Yields true (e.eval Deferred.supplier) :=
      Census.Admits.typeValue e _
    obtain ⟨W', more, fits', held⟩ := admits s final
    rw [Action.after_of_ok run] at fits'
    have belongs := held x (Action.result?_of_ok run)
    have traces : s.Traces s' := (Traced.supplier.evalType [] e).of_ok run
    have stands := (Traced.supplier.typeGives run).stands final
    exact ⟨x, s', run, stands.unwrapsAlike final traces walks more fits' belongs,
      stands.ends final traces walks⟩

/-- Whether something is told to be wrapped in types of these classes, with a type under them. -/
def Session.leadsTo (b : Session) (t : Value) : List Wrapper → Subject → Bool
  | [], .datum v => t.isType && v.same t
  | [], .given _ => false
  | w :: ws, p => (b.under? p).any fun q => q.1 == w && b.leadsTo t ws q.2

theorem Session.walks_of_leadsTo (h : b.leadsTo t ws p = true) : b.Walks p ws (.datum t) := by
  induction ws generalizing p with
  | nil =>
    cases p with
    | datum v =>
      obtain ⟨type, same⟩ := Bool.and_eq_true_iff.1 h
      obtain rfl : v = t := by
        cases t <;> cases type <;> cases v <;> first | cases same | simp_all [Value.same]
      exact .here
    | given => cases h
  | cons w ws ih =>
    cases under : b.under? p with
    | none =>
      rw [leadsTo, under] at h
      cases h
    | some q =>
      rw [leadsTo, under, Option.any_some, Bool.and_eq_true, beq_iff_eq] at h
      obtain ⟨rfl, rest⟩ := h
      exact .step under (ih rest)

/-- A type over a later list, and a list over a later type that wraps it twice, once more through a
reference. -/
def towerRequests : List Request :=
  [.declareType "inner" (.wrap .nonNull (.deferred "a" (.wrap .list (.ref "Int")))),
    .declareType "outer" (.wrap .list (.deferred "b"
      (.wrap .nonNull (.deferred "c" (.wrap .plain (.ref "inner"))))))]

/-- The list is unwrapped like the type in it; and so is a non-null type over a later reference to the
list, when it is built. -/
theorem towers_unwrap_alike :
    let s := (BuiltIn.session.runAll towerRequests).2
    let e : TypeExpression := .wrap .nonNull (.deferred "d" (.ref "outer"))
    let t : Value := .wrapper .nonNull ⟨2⟩
    (s.UnwrapsAlike (.wrapper .list ⟨3⟩) t ∧ s.Ends t ∧ s.Ends (.wrapper .list ⟨3⟩)) ∧
      ∃ x s', e.eval Deferred.supplier s = .ok x s' ∧
        s'.UnwrapsAlike x t ∧ s'.Ends t ∧ s'.Ends x := by
  intro s e t
  have occurs (name : String) {w : Wrapper} {r : Ref .wrapper}
      (bound : (s.binding? name).any (Value.same (.wrapper w r)) = true) :
      s.Occurs (.wrapper w r) := Session.occurs_of_bound bound
  have outer := occurs "outer" (w := .list) (r := ⟨3⟩) (by decide +kernel)
  have inner := occurs "inner" (w := .nonNull) (r := ⟨2⟩) (by decide +kernel)
  have layers : s.Walks (.datum (.wrapper .list ⟨3⟩)) [.list, .nonNull, .plain] (.datum t) :=
    Session.walks_of_leadsTo (by decide +kernel)
  have layers' : s.Walks (s.subject e.origin) [.nonNull, .list, .nonNull, .plain] (.datum t) :=
    Session.walks_of_leadsTo (by decide +kernel)
  have chain : s.Walks (.datum t) [.nonNull, .list] (.datum (.scalar ⟨0⟩)) :=
    Session.walks_of_leadsTo (by decide +kernel)
  obtain ⟨C, -, -, fits⟩ := BuiltIn.session_fits.runAll towerRequests
  have final : s.Fits (C 2) := fits 2
  have ends {u : Session} (traces : s.Traces u) : u.Ends t :=
    chain.ends final (final.belongs inner) rfl traces
  obtain ⟨objects, expressions⟩ := wrappings_unwrap_alike towerRequests
  obtain ⟨alike, ends'⟩ := objects outer layers
  obtain ⟨x, s', run, alike', ends''⟩ := expressions layers'
  have traces : s.Traces s' := (Traced.supplier.evalType [] e).of_ok run
  exact ⟨⟨alike, ends (.refl s), ends' (ends (.refl s))⟩, x, s', run, alike', ends traces,
    ends'' (ends traces)⟩

end DirectiveSchema

import DirectiveSchema.Proofs.Growth

/-!
Sessions that extend each other. Of what exists in a session nothing changes in an extension, but
types that were not resolved may be resolved there. Observing data and evaluating expressions
extends a session, whatever comes of it. An action answers when it returns after every observation.
-/
namespace DirectiveSchema

/-- A wrapping type that was resolved if it was not before. -/
structure WrappingType.Settles (c c' : WrappingType) : Prop where
  source : c'.source = c.source
  extra : c'.extra = c.extra
  resolved {t : Value} : c.resolved = some t → c'.resolved = some t
  honest {t : Value} : c'.resolved = some t →
    c.resolved = some t ∨ ∃ source, c.source = some source ∧ MayResolve source t

/-- An argument whose type was resolved if it was not before. -/
structure Argument.Settles (c c' : Argument) : Prop where
  name : c'.name = c.name
  description : c'.description = c.description
  hasDefault : c'.hasDefault = c.hasDefault
  default : c'.default = c.default
  source : c'.source = c.source
  extra : c'.extra = c.extra
  resolved {t : Value} : c.resolved = some t → c'.resolved = some t
  honest {t : Value} : c'.resolved = some t → c.resolved = some t ∨ MayResolve c.source t

namespace WrappingType.Settles

variable {a b c : WrappingType}

theorem refl (c : WrappingType) : c.Settles c := ⟨rfl, rfl, id, .inl⟩

theorem trans (h : a.Settles b) (h' : b.Settles c) : a.Settles c where
  source := h'.source.trans h.source
  extra := h'.extra.trans h.extra
  resolved ht := h'.resolved (h.resolved ht)
  honest ht := by
    rcases h'.honest ht with ht | ⟨source, based, may⟩
    · exact h.honest ht
    · exact .inr ⟨source, h.source.symm.trans based, may⟩

/-- A type may be resolved as long as it is not resolved. -/
theorem resolve (h : a.Settles b) {source t : Value} (unresolved : a.resolved = none)
    (based : a.source = some source) (may : MayResolve source t) :
    a.Settles { b with resolved := Types.kept t } where
  source := h.source
  extra := h.extra
  resolved ht := by rw [unresolved] at ht; cases ht
  honest ht := .inr ⟨source, based, Types.eq_of_kept ht ▸ may⟩

end WrappingType.Settles

namespace Argument.Settles

variable {a b c : Argument}

theorem refl (c : Argument) : c.Settles c := ⟨rfl, rfl, rfl, rfl, rfl, rfl, id, .inl⟩

theorem trans (h : a.Settles b) (h' : b.Settles c) : a.Settles c where
  name := h'.name.trans h.name
  description := h'.description.trans h.description
  hasDefault := h'.hasDefault.trans h.hasDefault
  default := h'.default.trans h.default
  source := h'.source.trans h.source
  extra := h'.extra.trans h.extra
  resolved ht := h'.resolved (h.resolved ht)
  honest ht := by
    rcases h'.honest ht with ht | may
    · exact h.honest ht
    · exact .inr (h.source ▸ may)

theorem resolve (h : a.Settles b) {t : Value} (unresolved : a.resolved = none)
    (may : MayResolve a.source t) : a.Settles { b with resolved := Types.kept t } :=
  { h with
    resolved := fun ht => by rw [unresolved] at ht; cases ht
    honest := fun ht => .inr (Types.eq_of_kept ht ▸ may) }

end Argument.Settles

/-- Nothing that exists changes, but for types that are resolved. -/
structure Session.Extends (s s' : Session) : Prop where
  lists : s.lists.Extends Eq s'.lists
  sets : s.sets.Extends Eq s'.sets
  dicts : s.dicts.Extends Eq s'.dicts
  namedTypes : s.namedTypes.Extends Eq s'.namedTypes
  scalars : s.scalars.Extends Eq s'.scalars
  wrappers : s.wrappers.Extends WrappingType.Settles s'.wrappers
  arguments : s.arguments.Extends Argument.Settles s'.arguments
  directives : s.directives.Extends Eq s'.directives
  nextTag : s.nextTag ≤ s'.nextTag
  bindings : s'.bindings = s.bindings

namespace Session.Extends

variable {s s' s'' : Session}

theorem refl (s : Session) : s.Extends s where
  lists := .refl (fun _ => rfl) _
  sets := .refl (fun _ => rfl) _
  dicts := .refl (fun _ => rfl) _
  namedTypes := .refl (fun _ => rfl) _
  scalars := .refl (fun _ => rfl) _
  wrappers := .refl .refl _
  arguments := .refl .refl _
  directives := .refl (fun _ => rfl) _
  nextTag := Nat.le_refl _
  bindings := rfl

theorem trans (h : s.Extends s') (h' : s'.Extends s'') : s.Extends s'' where
  lists := h.lists.trans Eq.trans h'.lists
  sets := h.sets.trans Eq.trans h'.sets
  dicts := h.dicts.trans Eq.trans h'.dicts
  namedTypes := h.namedTypes.trans Eq.trans h'.namedTypes
  scalars := h.scalars.trans Eq.trans h'.scalars
  wrappers := h.wrappers.trans WrappingType.Settles.trans h'.wrappers
  arguments := h.arguments.trans Argument.Settles.trans h'.arguments
  directives := h.directives.trans Eq.trans h'.directives
  nextTag := Nat.le_trans h.nextTag h'.nextTag
  bindings := h'.bindings.trans h.bindings

theorem directive (h : s.Extends s') {r : Ref .directive} (live : r.index < s.directives.size) :
    s'.directive r = s.directive r := (h.directives.cell live).symm

theorem argument (h : s.Extends s') {r : Ref .argument} (live : r.index < s.arguments.size) :
    (s.argument r).Settles (s'.argument r) := h.arguments.cell live

theorem wrapper (h : s.Extends s') {r : Ref .wrapper} (live : r.index < s.wrappers.size) :
    (s.wrapper r).Settles (s'.wrapper r) := h.wrappers.cell live

/-- Nothing is kept of a type while it is being resolved, whatever was kept in the meantime. -/
theorem putWrapper (h : s.Extends s') {r : Ref .wrapper} {source t : Value}
    (unresolved : (s.wrapper r).resolved = none) (based : (s.wrapper r).source = some source)
    (may : MayResolve source t) :
    s.Extends (s'.putWrapper r { s'.wrapper r with resolved := Types.kept t }) :=
  { h with wrappers := h.wrappers.put fun live => (h.wrapper live).resolve unresolved based may }

theorem putArgument (h : s.Extends s') {r : Ref .argument} {t : Value}
    (unresolved : (s.argument r).resolved = none) (may : MayResolve (s.argument r).source t) :
    s.Extends (s'.putArgument r { s'.argument r with resolved := Types.kept t }) :=
  { h with arguments := h.arguments.put fun live => (h.argument live).resolve unresolved may }

theorem lasting : Lasting Session.Extends := ⟨refl, trans⟩

/-- Whatever is evaluated or observed extends the session. -/
theorem growth : Growth Session.Extends where
  toLasting := lasting
  freshTag s := { refl s with nextTag := Nat.le_succ _ }
  newList _ s := { refl s with lists := .add (fun _ => rfl) _ _ }
  newSet _ s := { refl s with sets := .add (fun _ => rfl) _ _ }
  newDict _ s := { refl s with dicts := .add (fun _ => rfl) _ _ }
  newNamedType _ s := { refl s with namedTypes := .add (fun _ => rfl) _ _ }
  newScalar _ s := { refl s with scalars := .add (fun _ => rfl) _ _ }
  newWrapper _ s := { refl s with wrappers := .add .refl _ _ }
  newArgument _ s := { refl s with arguments := .add .refl _ _ }
  newDirective _ s := { refl s with directives := .add (fun _ => rfl) _ _ }
  note _ s := { refl s with }
  count _ s := { refl s with }
  wrapped := lasting.wrapped fun kept => kept.putWrapper
  type := lasting.type fun kept => kept.putArgument

end Session.Extends

/-! ### Types that no call decides -/

/-- A source that resolves to itself. -/
def Value.isKnown : Value → Bool
  | .deferred _ | .null => false
  | _ => true

theorem MayResolve.eq_of_isKnown {source t : Value} (h : MayResolve source t)
    (known : source.isKnown = true) : t = source := by
  rcases h with rfl | ⟨d, rfl⟩
  · rfl
  · cases known

/-- A wrapping type over a type that is known. -/
structure WrappingType.Over (c : WrappingType) (t : Value) : Prop where
  source : c.source = some t
  known : t.isKnown = true
  resolved {u : Value} : c.resolved = some u → u = t

/-- An argument of a type that is known. -/
structure Argument.Over (c : Argument) (t : Value) : Prop where
  source : c.source = t
  known : t.isKnown = true
  resolved {u : Value} : c.resolved = some u → u = t

theorem WrappingType.Over.settles {c c' : WrappingType} {t : Value} (h : c.Over t)
    (settles : c.Settles c') : c'.Over t where
  source := settles.source.trans h.source
  known := h.known
  resolved hu := by
    rcases settles.honest hu with hu | ⟨source, based, may⟩
    · exact h.resolved hu
    · rw [h.source] at based
      cases based
      exact may.eq_of_isKnown h.known

theorem Argument.Over.settles {c c' : Argument} {t : Value} (h : c.Over t)
    (settles : c.Settles c') : c'.Over t where
  source := settles.source.trans h.source
  known := h.known
  resolved hu := by
    rcases settles.honest hu with hu | may
    · exact h.resolved hu
    · exact (may.eq_of_isKnown (h.source ▸ h.known)).trans h.source

theorem Types.demand_of_isKnown {supply : Supplier} {t : Value} (known : t.isKnown = true)
    (s : Session) : Types.demand supply t s = .ok t s := by
  cases t with
  | deferred => cases known
  | _ => rfl

theorem WrappingType.Over.wrapped {s : Session} {r : Ref .wrapper} {t : Value}
    (h : (s.wrapper r).Over t) (supply : Supplier) (w : Wrapper) :
    ∃ s', Types.wrapped supply w r s = .ok t s' := by
  cases resolved : (s.wrapper r).resolved with
  | some u =>
    cases h.resolved resolved
    exact ⟨s, Types.wrapped_of_resolved resolved⟩
  | none =>
    exact ⟨_, Types.wrapped_of_demand resolved h.source (Types.demand_of_isKnown h.known s)⟩

theorem Argument.Over.type {s : Session} {q : Ref .argument} {t : Value}
    (h : (s.argument q).Over t) (supply : Supplier) :
    ∃ s', Arguments.type supply q s = .ok t s' := by
  cases resolved : (s.argument q).resolved with
  | some u =>
    cases h.resolved resolved
    exact ⟨s, Arguments.type_of_resolved resolved⟩
  | none =>
    have demanded : Types.demand supply (s.argument q).source s = .ok t s := by
      rw [h.source]
      exact Types.demand_of_isKnown h.known s
    exact ⟨_, Arguments.type_of_demand resolved demanded⟩

/-! ### Answers -/

/-- Observation leads from one session to another, while deferred types are evaluated. -/
abbrev Session.Leads (s s' : Session) : Prop := Later Deferred.supplier.answer s s'

theorem Session.Leads.extends {s s' : Session} (h : s.Leads s') : s.Extends s' :=
  h.keeps Session.Extends.growth.supplier

variable {α β : Type} {s s' : Session} {act : Action α}

/-- An action that returns, whatever was observed before. -/
def Answers (s : Session) (act : Action α) : Prop :=
  ∀ s', s.Leads s' → ∃ a s'', act s' = .ok a s''

/-- An action that ends in a fault, whatever was observed before. -/
def Refuses (s : Session) (act : Action α) : Prop :=
  ∀ s', s.Leads s' → ∃ f s'', act s' = .error f s''

/-- What an action may return after some observation. -/
def Yields (s : Session) (act : Action α) (a : α) : Prop :=
  ∃ s' s'', s.Leads s' ∧ act s' = .ok a s''

/-- The fault that an action may end in after some observation. -/
def Faults (s : Session) (act : Action α) (f : Fault) : Prop :=
  ∃ s' s'', s.Leads s' ∧ act s' = .error f s''

theorem Answers.not_faults (h : Answers s act) (f : Fault) : ¬Faults s act f := by
  rintro ⟨s', s'', later, run⟩
  obtain ⟨a, t, returned⟩ := h s' later
  rw [run] at returned
  cases returned

theorem Refuses.not_yields (h : Refuses s act) (a : α) : ¬Yields s act a := by
  rintro ⟨s', s'', later, run⟩
  obtain ⟨f, t, failed⟩ := h s' later
  rw [run] at failed
  cases failed

/-- What answers does so in later sessions. -/
theorem Answers.later (h : Answers s act) (later : s.Leads s') : Answers s' act :=
  fun _ more => h _ (later.trans more)

theorem answers_pure (s : Session) (a : α) : Answers s (pure a : Action α) :=
  fun s' _ => ⟨a, s', rfl⟩

theorem Answers.bind {f : α → Action β} (h : Answers s act)
    (kept : Keeps (Later Deferred.supplier.answer) act) (rest : ∀ a, Answers s (f a)) :
    Answers s (act >>= f) := by
  intro s' later
  obtain ⟨a, s₁, run⟩ := h s' later
  obtain ⟨b, s₂, next⟩ := rest a s₁ (later.trans (kept.of_ok run))
  exact ⟨b, s₂, (Action.bind_of_ok run).trans next⟩

theorem answers_mapM {f : β → Action α} (kept : ∀ b, Keeps (Later Deferred.supplier.answer) (f b))
    {bs : List β} (h : ∀ b ∈ bs, Answers s (f b)) : Answers s (bs.mapM f) := by
  induction bs with
  | nil => exact answers_pure s []
  | cons b bs ih =>
    rw [List.mapM_cons]
    have rest := ih fun c hc => h c (List.mem_cons_of_mem _ hc)
    have observed := Later.observed Deferred.supplier.answer
    refine (h b List.mem_cons_self).bind (kept b) fun a => ?_
    exact rest.bind (observed.mapM kept bs) fun as => answers_pure s (a :: as)

end DirectiveSchema

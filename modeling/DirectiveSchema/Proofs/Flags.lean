import DirectiveSchema.Proofs.Resolution

/-!
Flags of defaults. An argument stores its default and a flag that tells whether there is one. The
constructor sets both, and nothing else but the assignment and the deletion of the flag sets one of
them alone. A copy that is still to be filled has neither, nor a type.
-/
namespace DirectiveSchema

variable {s s' u : Session} {c : Argument} {q : Ref .argument} {t : Value}

/-- What an argument tells of its default. -/
inductive Argument.Flagged (c : Argument) : Prop where
  | told : c.hasDefault = some (.bool c.default.isSome) → Flagged c
  | blank : c.hasDefault = none → c.default = none → c.source = .null → c.resolved = none →
    Flagged c

theorem Argument.Flagged.of_blank : Argument.blank.Flagged := .blank rfl rfl rfl rfl

/-- What else an argument holds does not matter. -/
theorem Argument.Flagged.update {c' : Argument} (h : c.Flagged)
    (hasDefault : c'.hasDefault = c.hasDefault) (default : c'.default = c.default)
    (source : c'.source = c.source) (resolved : c'.resolved = c.resolved) : c'.Flagged := by
  cases h with
  | told flag => exact .told (by rw [hasDefault, default, flag])
  | blank flag stored based unresolved =>
    exact .blank (hasDefault.trans flag) (default.trans stored) (source.trans based)
      (resolved.trans unresolved)

/-- All arguments of a session tell of their defaults. -/
def Session.Flagged (s : Session) : Prop := ∀ q, (s.argument q).Flagged

namespace Session.Flagged

theorem beside (h : s.Flagged) (arguments : s'.arguments = s.arguments) : s'.Flagged := by
  intro q
  rw [argument, arguments]
  exact h q

theorem putArgument (h : s.Flagged) (q : Ref .argument) (hc : c.Flagged) :
    (s.putArgument q c).Flagged := by
  intro r
  by_cases same : q.index = r.index
  · by_cases live : q.index < s.arguments.size
    · rw [argument, ← same, show ((s.putArgument q c).arguments.get q.index) = c from
        Arena.get_put_self _ _ live]
      exact hc
    · rw [argument, ← same, Arena.get_of_le (by simpa [Session.putArgument] using live)]
      exact .of_blank
  · rw [argument, show (s.putArgument q c).arguments.get r.index = (s.argument r) from
      Arena.get_put_of_ne _ _ same]
    exact h r

theorem addArgument (h : s.Flagged) (hc : c.Flagged) :
    Session.Flagged { s with arguments := s.arguments.add c } := by
  intro r
  rcases Nat.lt_trichotomy r.index s.arguments.size with old | new | outside
  · rw [argument, show (s.arguments.add c).get r.index = s.argument r from
      Arena.get_add_of_lt _ _ old]
    exact h r
  · rw [argument, new, show (s.arguments.add c).get s.arguments.size = c from
      Arena.get_add_self _ _]
    exact hc
  · rw [argument, Arena.get_of_le (by rw [Arena.size_add]; exact outside)]
    exact .of_blank

end Session.Flagged

/-- An argument that is found to be over null later was so before, and nothing was called. -/
theorem eq_null_of_demand {supply : Supplier} (kept : s.KeepsTypes s')
    (answered : Types.demand supply (s.argument q).source s = .ok t u)
    (based : (s'.argument q).source = .null) : t = .null := by
  have before : (s.argument q).source = .null := by
    by_cases live : q.index < s.arguments.size
    · exact (kept.argument live).source.symm.trans based
    · rw [Session.argument, Arena.get_of_le (Nat.le_of_not_lt live)]
      rfl
  rw [before] at answered
  cases answered
  rfl

/-- The type of a blank argument is null. -/
theorem type_of_blank {supply : Supplier} (kept : s.KeepsTypes s')
    (run : Arguments.type supply q s = .ok t s') (based : (s'.argument q).source = .null)
    (unresolved : (s'.argument q).resolved = none) : t = .null := by
  cases known : (s.argument q).resolved with
  | some x =>
    rw [Arguments.type_of_resolved known] at run
    cases run
    rw [known] at unresolved
    cases unresolved
  | none =>
    cases answered : Types.demand supply (s.argument q).source s with
    | ok x u =>
      rw [Arguments.type_of_demand known answered] at run
      cases run
      exact eq_null_of_demand kept answered based
    | error f u =>
      rw [Arguments.type_of_fault known answered] at run
      cases run

/-- All arguments tell of their defaults, as long as they did before. -/
structure Session.KeepsFlags (s s' : Session) : Prop where
  types : s.KeepsTypes s'
  flags : s.Flagged → s'.Flagged

namespace Session.KeepsFlags

theorem lasting : Lasting Session.KeepsFlags where
  refl s := ⟨.refl s, id⟩
  trans h h' := ⟨h.types.trans h'.types, h'.flags ∘ h.flags⟩

/-- Changes beside the wrappers and the arguments. -/
theorem beside (wrappers : s'.wrappers = s.wrappers) (arguments : s'.arguments = s.arguments) :
    s.KeepsFlags s' := ⟨.beside wrappers arguments, fun h => h.beside arguments⟩

/-- What an existing argument was built over is what the demand was made on. -/
theorem resolve {supply : Supplier} (kept : s.KeepsFlags s')
    (unresolved : (s.argument q).resolved = none)
    (answered : Types.demand supply (s.argument q).source s = .ok t s') :
    s.KeepsFlags (s'.putArgument q { s'.argument q with resolved := Types.kept t }) where
  types := kept.types.putArgument fun live =>
    (kept.types.argument live).resolve unresolved (mayResolve_of_demand answered)
  flags h := by
    refine (kept.flags h).putArgument q ?_
    cases kept.flags h q with
    | told flag => exact .told flag
    | blank flag stored based =>
      refine .blank flag stored based ?_
      rw [eq_null_of_demand kept.types answered based]
      rfl

theorem answered : Answered Session.KeepsFlags where
  toLasting := lasting
  freshTag _ := beside rfl rfl
  newList _ _ := beside rfl rfl
  newSet _ _ := beside rfl rfl
  newDict _ _ := beside rfl rfl
  newNamedType _ _ := beside rfl rfl
  newScalar _ _ := beside rfl rfl
  newWrapper c s := ⟨Session.KeepsTypes.custody.newWrapper c s, fun h => h.beside rfl⟩
  createArgument _ _ _ _ s := ⟨Session.KeepsTypes.custody.newArgument _ s,
    fun h => h.addArgument (.told rfl)⟩
  count _ _ := beside rfl rfl
  register reading ws _ :=
    reading.register (fun _ => beside rfl rfl) (fun _ _ _ => beside rfl rfl) ws
  wrapped := lasting.wrapped fun kept unresolved based may =>
    ⟨kept.types.putWrapper fun live => (kept.types.wrapper live).resolve unresolved based may,
      kept.flags⟩
  type answers _ := lasting.typeBy resolve answers

theorem consulting : Consulting Session.KeepsFlags :=
  { answered with
    checked := { answered.reading with warn := fun _ _ _ => beside rfl rfl }
    call := answered.call }

/-- The flag is assigned under its own name only. -/
theorem ofSet (v : Value) {key : String} (new : Value) (named : key ≠ "has_default_value") :
    Keeps Session.KeepsFlags (Access.set v key new) := by
  refine fun s => ⟨Session.KeepsTypes.ofSet v key new s, fun h => ?_⟩
  unfold Access.set
  split
  · exact h
  · split
    · exact h.beside rfl
    · exact h.beside rfl
    · exact h.beside rfl
    · next q _ =>
      refine h.putArgument q ((h q).update ?_ ?_ ?_ ?_)
      all_goals split <;> first | rfl | exact absurd rfl named
    · exact h
    · exact h
    · exact h

theorem without (h : s.Flagged) (v : Value) {key : String} (named : key ≠ "has_default_value") :
    (Access.without s v key).Flagged := by
  cases v with
  | argument q =>
    refine h.putArgument q ((h q).update ?_ ?_ ?_ ?_)
    all_goals split <;> first | rfl | exact absurd rfl named
  | _ => exact h.beside rfl

theorem ofDelete (v : Value) {key : String} (named : key ≠ "has_default_value") :
    Keeps Session.KeepsFlags (Access.delete v key) := by
  simp only [Access.delete]
  split
  · exact lasting.throwFirst _
  · split
    · exact lasting.throw _
    · exact lasting.throw _
    · refine lasting.bindGet fun s => ?_
      split
      · exact fun s => ⟨Session.KeepsTypes.without s _ key, fun h => without h _ named⟩
      · exact lasting.throw _

theorem ofAppend (v x : Value) : Keeps Session.KeepsFlags (Access.append v x) := by
  unfold Access.append
  split
  · exact fun _ => beside rfl rfl
  · exact lasting.throw _

/-- The shallow copy of an argument tells what the argument tells. -/
theorem shallowArgument (q : Ref .argument) :
    Keeps Session.KeepsFlags ((Value.argument q).shallowCopy Deferred.supplier) := by
  have resolves := consulting.checked.type [] q
  intro s
  cases run : Arguments.type Deferred.supplier q s with
  | error f u =>
    rw [Value.shallowCopy, Action.after_of_error (Action.bind_of_error run)]
    exact resolves.of_error run
  | ok t u =>
    have kept := resolves.of_ok run
    have copied : (Value.argument q).shallowCopy Deferred.supplier s =
        .ok (.argument ⟨u.arguments.size⟩) { u with
          arguments := u.arguments.add
            { u.argument q with source := t, resolved := Types.kept t } } :=
      (Action.bind_of_ok run).trans rfl
    rw [Action.after_of_ok copied]
    refine lasting.trans kept ⟨Session.KeepsTypes.custody.newArgument _ u, fun h => ?_⟩
    refine h.addArgument ?_
    cases h q with
    | told flag => exact .told flag
    | blank flag stored based unresolved =>
      obtain rfl := type_of_blank kept.types run based unresolved
      exact .blank flag stored rfl rfl

theorem shallowCopy (v : Value) : Keeps Session.KeepsFlags (v.shallowCopy Deferred.supplier) :=
  consulting.shallowCopy shallowArgument v

end Session.KeepsFlags

end DirectiveSchema

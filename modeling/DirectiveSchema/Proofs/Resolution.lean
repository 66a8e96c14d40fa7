import DirectiveSchema.Proofs.Extension
import DirectiveSchema.Proofs.Requests

/-!
Types that are resolved once. What a wrapper or an argument was built over stays, and so does its
type once it is known: whatever is requested, neither is ever assigned again. A type that is known
is read without a call, so a deferred type is called up to its first answer, and never for a copy.
-/
namespace DirectiveSchema

/-- A wrapping type without the attributes that were added to it. -/
def WrappingType.bare (c : WrappingType) : WrappingType := { c with extra := [] }

/-- An argument with nothing but its type. -/
def Argument.bare (c : Argument) : Argument :=
  { Argument.blank with source := c.source, resolved := c.resolved }

/-- Of the wrappers and arguments that exist, what they were built over stays, and a type is
resolved only as long as it is not. -/
structure Session.KeepsTypes (s s' : Session) : Prop where
  wrappers : s.wrappers.Extends (fun c c' => c.bare.Settles c'.bare) s'.wrappers
  arguments : s.arguments.Extends (fun c c' => c.bare.Settles c'.bare) s'.arguments

namespace Session.KeepsTypes

variable {s s' s'' : Session}

theorem refl (s : Session) : s.KeepsTypes s := ⟨.refl (fun _ => .refl _) _, .refl (fun _ => .refl _) _⟩

theorem trans (h : s.KeepsTypes s') (h' : s'.KeepsTypes s'') : s.KeepsTypes s'' where
  wrappers := h.wrappers.trans WrappingType.Settles.trans h'.wrappers
  arguments := h.arguments.trans Argument.Settles.trans h'.arguments

theorem lasting : Lasting Session.KeepsTypes := ⟨refl, trans⟩

theorem wrapper (h : s.KeepsTypes s') {r : Ref .wrapper} (live : r.index < s.wrappers.size) :
    (s.wrapper r).bare.Settles (s'.wrapper r).bare := h.wrappers.cell live

theorem argument (h : s.KeepsTypes s') {q : Ref .argument} (live : q.index < s.arguments.size) :
    (s.argument q).bare.Settles (s'.argument q).bare := h.arguments.cell live

/-- Changes beside the wrappers and the arguments. -/
theorem beside (wrappers : s'.wrappers = s.wrappers) (arguments : s'.arguments = s.arguments) :
    s.KeepsTypes s' := by
  refine ⟨?_, ?_⟩
  · rw [wrappers]
    exact (refl s).wrappers
  · rw [arguments]
    exact (refl s).arguments

theorem putWrapper (h : s.KeepsTypes s') {r : Ref .wrapper} {c : WrappingType}
    (settles : r.index < s.wrappers.size → (s.wrapper r).bare.Settles c.bare) :
    s.KeepsTypes (s'.putWrapper r c) :=
  { h with wrappers := h.wrappers.put settles }

theorem putArgument (h : s.KeepsTypes s') {q : Ref .argument} {c : Argument}
    (settles : q.index < s.arguments.size → (s.argument q).bare.Settles c.bare) :
    s.KeepsTypes (s'.putArgument q c) :=
  { h with arguments := h.arguments.put settles }

/-- What is assigned is never a type. -/
theorem ofSet (v : Value) (key : String) (new : Value) :
    Keeps Session.KeepsTypes (Access.set v key new) := by
  unfold Access.set
  split
  · exact lasting.throw _
  · split
    · exact fun _ => beside rfl rfl
    · exact fun _ => beside rfl rfl
    · exact fun s => (refl s).putWrapper fun _ => .refl _
    · refine fun s => (refl s).putArgument fun _ => ?_
      split <;> exact .refl _
    · exact lasting.throw _
    · exact lasting.throw _
    · exact lasting.throw _

theorem without (s : Session) (v : Value) (key : String) :
    s.KeepsTypes (Access.without s v key) := by
  cases v with
  | wrapper w r => exact (refl s).putWrapper fun _ => .refl _
  | argument q =>
    refine (refl s).putArgument fun _ => ?_
    split <;> exact .refl _
  | _ => exact beside rfl rfl

theorem ofDelete (v : Value) (key : String) : Keeps Session.KeepsTypes (Access.delete v key) := by
  simp only [Access.delete]
  split
  · exact lasting.throwFirst _
  · split
    · exact lasting.throw _
    · exact lasting.throw _
    · refine lasting.bindGet fun s => ?_
      split
      · exact fun s => without s _ key
      · exact lasting.throw _

theorem ofAppend (v x : Value) : Keeps Session.KeepsTypes (Access.append v x) := by
  unfold Access.append
  split
  · exact fun _ => beside rfl rfl
  · exact lasting.throw _

theorem custody : Custody Session.KeepsTypes where
  toLasting := lasting
  freshTag _ := beside rfl rfl
  newList _ _ := beside rfl rfl
  newSet _ _ := beside rfl rfl
  newDict _ _ := beside rfl rfl
  newNamedType _ _ := beside rfl rfl
  newScalar _ _ := beside rfl rfl
  newWrapper _ s := { refl s with wrappers := .add (fun _ => .refl _) _ _ }
  newArgument _ s := { refl s with arguments := .add (fun _ => .refl _) _ _ }
  newDirective _ _ := beside rfl rfl
  note _ _ := beside rfl rfl
  count _ _ := beside rfl rfl
  wrapped := lasting.wrapped fun kept unresolved based may =>
    kept.putWrapper fun live => (kept.wrapper live).resolve unresolved based may
  type := lasting.type fun kept unresolved may =>
    kept.putArgument fun live => (kept.argument live).resolve unresolved may
  bound _ _ := beside rfl rfl
  noted _ _ := beside rfl rfl
  set := ofSet
  delete := ofDelete
  append := ofAppend
  fillList _ kept := { kept with }
  fillSet _ kept := { kept with }
  fillDict _ kept := { kept with }
  fillNamedType _ kept := { kept with }
  fillWrapper _ kept := kept.putWrapper fun live => absurd live (Nat.lt_irrefl _)
  fillArgument _ kept := kept.putArgument fun live => absurd live (Nat.lt_irrefl _)

end Session.KeepsTypes

/-- The wrappers and the arguments that exist are as they were. -/
structure Session.LeavesTypes (s s' : Session) : Prop where
  wrappers : s.wrappers.Extends Eq s'.wrappers
  arguments : s.arguments.Extends Eq s'.arguments

namespace Session.LeavesTypes

variable {s s' : Session}

theorem refl (s : Session) : s.LeavesTypes s := ⟨.refl (fun _ => rfl) _, .refl (fun _ => rfl) _⟩

theorem lasting : Lasting Session.LeavesTypes where
  refl := refl
  trans h h' := ⟨h.wrappers.trans Eq.trans h'.wrappers, h.arguments.trans Eq.trans h'.arguments⟩

/-- What is added changes nothing that exists. -/
theorem addition : Addition Session.LeavesTypes where
  toLasting := lasting
  freshTag s := { refl s with }
  newList _ s := { refl s with }
  newSet _ s := { refl s with }
  newDict _ s := { refl s with }
  newNamedType _ s := { refl s with }
  newScalar _ s := { refl s with }
  newWrapper _ s := { refl s with wrappers := .add (fun _ => rfl) _ _ }
  newArgument _ s := { refl s with arguments := .add (fun _ => rfl) _ _ }
  newDirective _ s := { refl s with }
  created _ _ s := { refl s with }
  count _ s := { refl s with }

/-- A relation that is kept where nothing that exists changes is kept by what is added. -/
theorem enlarges {R : Session → Session → Prop} (lasting : Lasting R)
    (leaves : ∀ {s s' : Session}, s.Extends s' → s.LeavesTypes s' → R s s') : Addition R where
  toLasting := lasting
  freshTag s := leaves (Extends.growth.freshTag s) (addition.freshTag s)
  newList c s := leaves (Extends.growth.newList c s) (addition.newList c s)
  newSet c s := leaves (Extends.growth.newSet c s) (addition.newSet c s)
  newDict c s := leaves (Extends.growth.newDict c s) (addition.newDict c s)
  newNamedType c s := leaves (Extends.growth.newNamedType c s) (addition.newNamedType c s)
  newScalar c s := leaves (Extends.growth.newScalar c s) (addition.newScalar c s)
  newWrapper c s := leaves (Extends.growth.newWrapper c s) (addition.newWrapper c s)
  newArgument c s := leaves (Extends.growth.newArgument c s) (addition.newArgument c s)
  newDirective c s := leaves (Extends.growth.newDirective c s) (addition.newDirective c s)
  created name locations s :=
    leaves (Extends.growth.note (.created name locations) s) (addition.created name locations s)
  count c s := leaves (Extends.growth.count c s) (addition.count c s)

/-- A call resolves nothing, unless it compares, hashes or writes data. -/
theorem ofCallWithin {d : Deferred} (silent : d.body.readsTypes = false) (n : Nat)
    (ws : List Value) : Keeps Session.LeavesTypes (Deferred.callWithin n ws d) := by
  have evaluated (answer : List Value → Deferred → Action Value) :
      Keeps Session.LeavesTypes (d.evaluate ⟨ws, answer⟩) :=
    addition.evaluate ws d fun reads => by
      rw [silent] at reads
      cases reads
  cases n with
  | zero =>
    unfold Deferred.callWithin
    split
    · exact evaluated _
    · exact lasting.throw _
  | succ n => exact evaluated _

end Session.LeavesTypes

/-! ### Accesses -/

section

variable {supply : Supplier} {s s' s'' : Session} {o t : Value} {d : Deferred}

/-- What is kept of the type of a wrapper or an argument. -/
def Session.typeOf? (s : Session) : Value → Option Value
  | .wrapper _ r => (s.wrapper r).resolved
  | .argument q => (s.argument q).resolved
  | _ => none

/-- A session in which a type was put into a wrapper or an argument. -/
def Session.keepType (s : Session) (o t : Value) : Session :=
  match o with
  | .wrapper _ r => s.putWrapper r { s.wrapper r with resolved := Types.kept t }
  | .argument q => s.putArgument q { s.argument q with resolved := Types.kept t }
  | _ => s

/-- A wrapper or an argument that exists, and that was built over a datum. -/
inductive Session.Over (s : Session) (source : Value) : Value → Prop where
  | wrapper {w : Wrapper} {r : Ref .wrapper} : r.index < s.wrappers.size →
      (s.wrapper r).source = some source → s.Over source (.wrapper w r)
  | argument {q : Ref .argument} : q.index < s.arguments.size →
      (s.argument q).source = source → s.Over source (.argument q)

theorem Session.Over.kept {source : Value} (h : s.Over source o) (kept : s.KeepsTypes s') :
    s'.Over source o := by
  cases h with
  | wrapper live based =>
    exact .wrapper (Nat.lt_of_lt_of_le live kept.wrappers.size)
      ((kept.wrapper live).source.trans based)
  | argument live based =>
    exact .argument (Nat.lt_of_lt_of_le live kept.arguments.size)
      ((kept.argument live).source.trans based)

theorem Session.Over.typeOf?_kept {source : Value} (h : s.Over source o) (kept : s.KeepsTypes s')
    (resolved : s.typeOf? o = some t) : s'.typeOf? o = some t := by
  cases h with
  | wrapper live based => exact (kept.wrapper live).resolved resolved
  | argument live based => exact (kept.argument live).resolved resolved

/-- A type that is kept is one that the source may resolve to. -/
theorem Session.Over.honest {source : Value} (h : s.Over source o) (kept : s.KeepsTypes s')
    (resolved : s'.typeOf? o = some t) : s.typeOf? o = some t ∨ MayResolve source t := by
  cases h with
  | wrapper live based =>
    rcases (kept.wrapper live).honest resolved with known | ⟨source', based', may⟩
    · exact .inl known
    · cases based.symm.trans based'
      exact .inr may
  | argument live based =>
    rcases (kept.argument live).honest resolved with known | may
    · exact .inl known
    · cases based
      exact .inr may

/-- What is not read is not resolved. -/
theorem Session.Over.typeOf?_left {source : Value} (h : s.Over source o) (left : s.LeavesTypes s') :
    s'.typeOf? o = s.typeOf? o := by
  cases h with
  | wrapper live => exact congrArg WrappingType.resolved (left.wrappers.cell live).symm
  | argument live => exact congrArg Argument.resolved (left.arguments.cell live).symm

theorem Session.Over.typeOf?_keepType {source : Value} (h : s.Over source o) (t : Value) :
    (s.keepType o t).typeOf? o = Types.kept t := by
  cases h with
  | wrapper live based =>
    exact congrArg WrappingType.resolved (Arena.get_put_self s.wrappers _ live)
  | argument live based =>
    exact congrArg Argument.resolved (Arena.get_put_self s.arguments _ live)

namespace Access

/-- A type that is known is read, and no call is made. -/
theorem type_of_known {source : Value} (rests : s.Over source o) (known : s.typeOf? o = some t)
    (supply : Supplier) : get supply o "type" s = .ok t s := by
  cases rests with
  | wrapper => exact Types.wrapped_of_resolved known
  | argument => exact Arguments.type_of_resolved known

/-- A type that is not known is demanded. -/
theorem type_of_unknown {source : Value} (rests : s.Over source o) (unknown : s.typeOf? o = none)
    (supply : Supplier) : get supply o "type" s =
      (do
        let t ← Types.demand supply source
        modify fun s : Session => s.keepType o t
        return t) s := by
  cases answered : Types.demand supply source s with
  | ok t s' =>
    rw [Action.bind_of_ok answered]
    cases rests with
    | wrapper live based => exact Types.wrapped_of_demand unknown based answered
    | argument live based => exact Arguments.type_of_demand unknown (based ▸ answered)
  | error f s' =>
    rw [Action.bind_of_error answered]
    cases rests with
    | wrapper live based => exact Types.wrapped_of_fault unknown based answered
    | argument live based => exact Arguments.type_of_fault unknown (based ▸ answered)

/-- A type that is demanded is known afterwards, unless it is null. -/
theorem type_ok {source : Value} (rests : s.Over source o) (unknown : s.typeOf? o = none)
    (h : get supply o "type" s = .ok t s') : ∃ s₁, Types.demand supply source s = .ok t s₁ ∧
      s' = s₁.keepType o t := by
  rw [type_of_unknown rests unknown] at h
  obtain ⟨t', s₁, answered, h⟩ := Action.ok_of_bind h
  cases h
  exact ⟨s₁, answered, rfl⟩

theorem type_error {source : Value} {f : Fault} (rests : s.Over source o)
    (h : get supply o "type" s = .error f s') :
    s.typeOf? o = none ∧ Types.demand supply source s = .error f s' := by
  cases known : s.typeOf? o with
  | some t =>
    rw [type_of_known rests known] at h
    cases h
  | none =>
    refine ⟨rfl, ?_⟩
    rw [type_of_unknown rests known] at h
    cases answered : Types.demand supply source s with
    | ok t s₁ =>
      rw [Action.bind_of_ok answered] at h
      cases h
    | error e s₁ =>
      rw [Action.bind_of_error answered] at h
      exact h

end Access

end

/-! ### Copies -/

section

variable {s s' : Session} {v c t : Value}

/-- A wrapper or an argument over a type that was known when it was made. -/
structure Session.OverKnown (s : Session) (t c : Value) : Prop where
  rests : s.Over t c
  known : s.typeOf? c = Types.kept t

theorem Session.overKnown_wrapper {w : Wrapper} {r : Ref .wrapper} (live : r.index < s.wrappers.size)
    (t : Value) : (s.putWrapper r (Types.known t)).OverKnown t (.wrapper w r) := by
  have cell : (s.putWrapper r (Types.known t)).wrapper r = Types.known t :=
    Arena.get_put_self s.wrappers _ live
  refine ⟨.wrapper ?_ (congrArg WrappingType.source cell), congrArg WrappingType.resolved cell⟩
  exact Nat.lt_of_lt_of_eq live (Arena.size_put _ _ _).symm

theorem Session.overKnown_argument {q : Ref .argument} {a : Argument}
    (live : q.index < s.arguments.size) (known : a.resolved = Types.kept a.source) :
    (s.putArgument q a).OverKnown a.source (.argument q) := by
  have cell : (s.putArgument q a).argument q = a := Arena.get_put_self s.arguments _ live
  refine ⟨.argument ?_ (congrArg Argument.source cell), (congrArg Argument.resolved cell).trans known⟩
  exact Nat.lt_of_lt_of_eq live (Arena.size_put _ _ _).symm

theorem Session.overKnown_newWrapper (s : Session) (w : Wrapper) (t : Value) :
    ({ s with wrappers := s.wrappers.add (Types.known t) } : Session).OverKnown t
      (.wrapper w ⟨s.wrappers.size⟩) := by
  have cell := Arena.get_add_self s.wrappers (Types.known t)
  refine ⟨.wrapper ?_ (congrArg WrappingType.source cell), congrArg WrappingType.resolved cell⟩
  exact Nat.lt_of_lt_of_eq (Nat.lt_succ_self _) (Arena.size_add _ _).symm

theorem Session.overKnown_newArgument (s : Session) {a : Argument}
    (known : a.resolved = Types.kept a.source) :
    ({ s with arguments := s.arguments.add a } : Session).OverKnown a.source
      (.argument ⟨s.arguments.size⟩) := by
  have cell := Arena.get_add_self s.arguments a
  refine ⟨.argument ?_ (congrArg Argument.source cell), (congrArg Argument.resolved cell).trans known⟩
  exact Nat.lt_of_lt_of_eq (Nat.lt_succ_self _) (Arena.size_add _ _).symm

/-- No wrapper and no argument of a session, though it may be one in a later session. -/
def Session.Lacks (s : Session) : Value → Prop
  | .wrapper _ r => s.wrappers.size ≤ r.index
  | .argument q => s.arguments.size ≤ q.index
  | _ => True

theorem Session.Lacks.of_kept (h : s'.Lacks c) (kept : s.KeepsTypes s') : s.Lacks c := by
  cases c with
  | wrapper => exact Nat.le_trans kept.wrappers.size h
  | argument => exact Nat.le_trans kept.arguments.size h
  | _ => trivial

theorem Session.Over.shallowCopy {source : Value} (rests : s.Over source v)
    (h : v.shallowCopy Deferred.supplier s = .ok c s') :
    ∃ t, s'.OverKnown t c ∧ s.Lacks c := by
  have observed := Session.KeepsTypes.custody.observed
  cases rests with
  | wrapper =>
    obtain ⟨_, s₁, first, h⟩ := Action.ok_of_bind h
    obtain ⟨t, s₂, second, h⟩ := Action.ok_of_bind h
    cases h
    have kept := ((observed.wrapped [] _ _).of_ok first).trans
      ((observed.wrapped [] _ _).of_ok second)
    exact ⟨t, s₂.overKnown_newWrapper _ t, kept.wrappers.size⟩
  | argument =>
    obtain ⟨t, s₁, typed, h⟩ := Action.ok_of_bind h
    cases h
    exact ⟨t, s₁.overKnown_newArgument rfl, ((observed.type [] _).of_ok typed).arguments.size⟩

/-- Between the making and the filling of a copy its cell stays in place. -/
theorem Session.Over.deepCopy {source : Value} (rests : s.Over source v)
    (h : DeepCopy.copy Deferred.supplier v s = .ok c s') :
    ∃ t, s'.OverKnown t c ∧ s.Lacks c := by
  have observed := Session.KeepsTypes.custody.observed
  have custody := Session.KeepsTypes.custody.furnishing
  obtain ⟨n, -, bound⟩ := Action.boundedPairs_succ v.depth
    (fun n => do return (← (DeepCopy.copyWithin Deferred.supplier n v).run []).1 :
      Nat → Action Value) s
  rw [DeepCopy.copy, bound] at h
  obtain ⟨⟨copied, memo⟩, s₁, run, returned⟩ := Action.ok_of_bind h
  cases returned
  have parts (x : Value) := custody.copyWithin n x
  change DeepCopy.ofObject Deferred.supplier _ v [] s = _ at run
  cases rests with
  | wrapper =>
    obtain ⟨_, _, s₂, first, run⟩ := Action.ok_of_bindWith run
    obtain ⟨t₀, _, s₃, second, run⟩ := Action.ok_of_bindWith run
    obtain ⟨new, _, s₄, made, run⟩ := Action.ok_of_bindWith run
    obtain ⟨_, _, s₅, remembered, run⟩ := Action.ok_of_bindWith run
    obtain ⟨t, _, s₆, copiedType, run⟩ := Action.ok_of_bindWith run
    cases run
    cases made
    cases remembered
    have before := ((custody.lift (observed.wrapped [] _ _) _).of_ok first).trans
      ((custody.lift (observed.wrapped [] _ _) _).of_ok second)
    have kept := (parts t₀ _).of_ok copiedType
    have live := Nat.lt_of_lt_of_le
      (Nat.lt_of_lt_of_eq (Nat.lt_succ_self _) (Arena.size_add _ _).symm) kept.wrappers.size
    exact ⟨t, Session.overKnown_wrapper live t, before.wrappers.size⟩
  | argument =>
    obtain ⟨t₀, _, s₂, typed, run⟩ := Action.ok_of_bindWith run
    obtain ⟨_, _, s₃, read, run⟩ := Action.ok_of_bindWith run
    obtain ⟨new, _, s₄, made, run⟩ := Action.ok_of_bindWith run
    obtain ⟨_, _, s₅, remembered, run⟩ := Action.ok_of_bindWith run
    obtain ⟨name, _, s₆, copiedName, run⟩ := Action.ok_of_bindWith run
    obtain ⟨description, _, s₇, copiedDescription, run⟩ := Action.ok_of_bindWith run
    obtain ⟨hasDefault, _, s₈, copiedHasDefault, run⟩ := Action.ok_of_bindWith run
    obtain ⟨default, _, s₉, copiedDefault, run⟩ := Action.ok_of_bindWith run
    obtain ⟨t, _, s₁₀, copiedType, run⟩ := Action.ok_of_bindWith run
    obtain ⟨extra, _, s₁₁, copiedExtra, run⟩ := Action.ok_of_bindWith run
    cases run
    cases made
    cases remembered
    cases read
    have before := (custody.lift (observed.type [] _) _).of_ok typed
    have part (x : Option Value) := custody.copyPart parts x
    have kept := ((part _ _).of_ok copiedName).trans <| ((part _ _).of_ok copiedDescription).trans <|
      ((part _ _).of_ok copiedHasDefault).trans <| ((part _ _).of_ok copiedDefault).trans <|
        ((parts t₀ _).of_ok copiedType).trans <|
          (custody.copyAttributes parts _ _).of_ok copiedExtra
    have live := Nat.lt_of_lt_of_le
      (Nat.lt_of_lt_of_eq (Nat.lt_succ_self _) (Arena.size_add _ _).symm) kept.arguments.size
    exact ⟨t, Session.overKnown_argument live rfl, before.arguments.size⟩

/-- A picture of a wrapper or of an argument. -/
inductive Snapshot.PicturesType : Snapshot → Prop where
  | wrapper (k : Nat) (w : Wrapper) (type : Snapshot) : PicturesType (.wrapper k w type)
  | argument (k : Nat) (name description hasDefault default : Option Snapshot) (type : Snapshot)
      (extra : List (String × Snapshot)) :
      PicturesType (.argument k name description hasDefault default type extra)

theorem Session.Over.take {source : Value} {p : Snapshot} (rests : s.Over source v)
    (h : Snapshot.take Deferred.supplier v s = .ok p s') : p.PicturesType := by
  obtain ⟨n, -, bound⟩ := Action.boundedPairs_succ v.depth
    (fun n => do return (← (Snapshot.takeWithin Deferred.supplier n v).run []).1 :
      Nat → Action Snapshot) s
  rw [Snapshot.take, bound] at h
  obtain ⟨⟨taken, seen⟩, s₁, run, returned⟩ := Action.ok_of_bind h
  cases returned
  obtain ⟨m, -, bound⟩ := Action.boundedPairs_succ v.depth
    (fun m => Snapshot.takeRound Deferred.supplier (Snapshot.takeWithin Deferred.supplier n) m v [])
    s
  change Action.boundedPairs v.depth
    (fun m => Snapshot.takeRound Deferred.supplier (Snapshot.takeWithin Deferred.supplier n) m v [])
    s = _ at run
  rw [bound] at run
  change Snapshot.ofObject Deferred.supplier _ _ v [] s = _ at run
  cases rests with
  | wrapper =>
    obtain ⟨_, _, s₂, -, run⟩ := Action.ok_of_bindWith run
    obtain ⟨t, _, s₃, -, run⟩ := Action.ok_of_bindWith run
    obtain ⟨k, _, s₄, -, run⟩ := Action.ok_of_bindWith run
    obtain ⟨type, _, s₅, -, run⟩ := Action.ok_of_bindWith run
    cases run
    exact .wrapper k _ type
  | argument =>
    obtain ⟨t, _, s₂, -, run⟩ := Action.ok_of_bindWith run
    obtain ⟨_, _, s₃, -, run⟩ := Action.ok_of_bindWith run
    obtain ⟨k, _, s₄, -, run⟩ := Action.ok_of_bindWith run
    obtain ⟨name, _, s₅, -, run⟩ := Action.ok_of_bindWith run
    obtain ⟨description, _, s₆, -, run⟩ := Action.ok_of_bindWith run
    obtain ⟨hasDefault, _, s₇, -, run⟩ := Action.ok_of_bindWith run
    obtain ⟨default, _, s₈, -, run⟩ := Action.ok_of_bindWith run
    obtain ⟨type, _, s₉, -, run⟩ := Action.ok_of_bindWith run
    obtain ⟨extra, _, s₁₀, -, run⟩ := Action.ok_of_bindWith run
    cases run
    exact .argument k name description hasDefault default type extra

/-- What is built at a place stays there until it is filled. -/
theorem Snapshot.filled {kind : CellKind} {content : Type} {k : Nat} {new : Action (Ref kind)}
    {value : Ref kind → Value} {put : Session → Ref kind → content → Session}
    {build : Snapshot.Restoring content} {built built' : List (Nat × Value)}
    (h : Snapshot.fill k new value put build built s = .ok (c, built') s') :
    ∃ r x s₁ s₂ left, new s = .ok r s₁ ∧
      build ((k, value r) :: built) s₁ = .ok (x, left) s₂ ∧ c = value r ∧ s' = put s₂ r x := by
  obtain ⟨r, _, s₁, lifted, h⟩ := Action.ok_of_bindWith h
  obtain ⟨v, entered, s₂, settled, h⟩ := Action.ok_of_bindWith h
  obtain ⟨x, left, s₃, inner, h⟩ := Action.ok_of_bindWith h
  cases h
  cases settled
  obtain ⟨made, rfl⟩ := Action.ok_of_lift lifted
  exact ⟨r, x, _, s₃, _, made, inner, rfl, rfl⟩

theorem Snapshot.PicturesType.restore {p : Snapshot} (h : p.PicturesType)
    (run : Snapshot.restore Deferred.supplier p s = .ok c s') :
    ∃ t, s'.OverKnown t c ∧ s.Lacks c := by
  have custody := Session.KeepsTypes.custody.furnishing
  have building := Session.KeepsTypes.custody.toBuilding
  obtain ⟨⟨made, built⟩, s₁, run, returned⟩ := Action.ok_of_bind run
  cases returned
  cases h with
  | wrapper k w type =>
    obtain ⟨r, x, s₂, s₃, left, new, build, rfl, rfl⟩ := Snapshot.filled run
    cases new
    obtain ⟨t, _, s₄, restored, build⟩ := Action.ok_of_bindWith build
    cases build
    have kept := (custody.restoreWith building type _).of_ok restored
    have live := Nat.lt_of_lt_of_le
      (Nat.lt_of_lt_of_eq (Nat.lt_succ_self _) (Arena.size_add _ _).symm) kept.wrappers.size
    exact ⟨t, Session.overKnown_wrapper live t, Nat.le_refl _⟩
  | argument k name description hasDefault default type extra =>
    obtain ⟨r, x, s₂, s₃, left, new, build, rfl, rfl⟩ := Snapshot.filled run
    cases new
    obtain ⟨name', _, s₄, restoredName, build⟩ := Action.ok_of_bindWith build
    obtain ⟨description', _, s₅, restoredDescription, build⟩ := Action.ok_of_bindWith build
    obtain ⟨hasDefault', _, s₆, restoredHasDefault, build⟩ := Action.ok_of_bindWith build
    obtain ⟨default', _, s₇, restoredDefault, build⟩ := Action.ok_of_bindWith build
    obtain ⟨t, _, s₈, restoredType, build⟩ := Action.ok_of_bindWith build
    obtain ⟨extra', _, s₉, restoredExtra, build⟩ := Action.ok_of_bindWith build
    cases build
    have part (x : Option Snapshot) := custody.restorePart building x
    have kept := ((part _ _).of_ok restoredName).trans <|
      ((part _ _).of_ok restoredDescription).trans <|
        ((part _ _).of_ok restoredHasDefault).trans <| ((part _ _).of_ok restoredDefault).trans <|
          ((custody.restoreWith building type _).of_ok restoredType).trans <|
            (custody.restoreAttributes building extra _).of_ok restoredExtra
    have live := Nat.lt_of_lt_of_le
      (Nat.lt_of_lt_of_eq (Nat.lt_succ_self _) (Arena.size_add _ _).symm) kept.arguments.size
    exact ⟨t, Session.overKnown_argument live rfl, Nat.le_refl _⟩

theorem Session.Over.storedCopy {source : Value} (rests : s.Over source v)
    (h : Snapshot.copy Deferred.supplier v s = .ok c s') :
    ∃ t, s'.OverKnown t c ∧ s.Lacks c := by
  obtain ⟨p, s₁, taken, restored⟩ := Action.ok_of_bind h
  obtain ⟨t, known, lacks⟩ := (rests.take taken).restore restored
  have kept := (Session.KeepsTypes.custody.observed.take [] v).of_ok taken
  exact ⟨t, known, lacks.of_kept kept⟩

/-- A copy is over a known type, however it was made, and it was not there before. -/
theorem Session.Over.copy {source : Value} {mode : CopyMode} (rests : s.Over source v)
    (h : v.copy Deferred.supplier mode s = .ok c s') :
    ∃ t, s'.OverKnown t c ∧ s.Lacks c := by
  cases mode with
  | shallow => exact rests.shallowCopy h
  | deep => exact rests.deepCopy h
  | stored => exact rests.storedCopy h

theorem Session.keepType_of_kept (h : s.typeOf? v = Types.kept t) : s.keepType v t = s := by
  cases v with
  | wrapper w r =>
    have known : Types.kept t = (s.wrapper r).resolved := h.symm
    simp only [keepType, known]
    exact congrArg (fun cells => { s with wrappers := cells }) (Arena.put_get s.wrappers r.index)
  | argument q =>
    have known : Types.kept t = (s.argument q).resolved := h.symm
    simp only [keepType, known]
    exact congrArg (fun cells => { s with arguments := cells }) (Arena.put_get s.arguments q.index)
  | _ => rfl

/-- A known type is still the same when something came to pass, and it is read without a call. -/
theorem Session.OverKnown.type (h : s.OverKnown t c) (kept : s.KeepsTypes s') (supply : Supplier) :
    Access.get supply c "type" s' = .ok t s' := by
  have rests := h.rests.kept kept
  cases empty : t.isNull with
  | false =>
    have known := h.known.trans (Types.kept_of_not_isNull empty)
    exact Access.type_of_known rests (h.rests.typeOf?_kept kept known) supply
  | true =>
    obtain rfl : t = .null := by
      cases t with
      | null => rfl
      | _ => cases empty
    cases resolved : s'.typeOf? c with
    | none =>
      rw [Access.type_of_unknown rests resolved]
      exact congrArg _ (s'.keepType_of_kept resolved)
    | some u =>
      rcases h.rests.honest kept resolved with known | rfl | ⟨d, deferred⟩
      · rw [h.known] at known
        cases known
      · exact Access.type_of_known rests resolved supply
      · cases deferred

end

/-! ### Whatever is requested -/

/-- One session comes to pass after another: between them holds whatever every step keeps. -/
def Session.Precedes (s s' : Session) : Prop := ∀ R : Session → Session → Prop, Custody R → R s s'

theorem Session.precedes_runAll (s : Session) (qs : List Request) : s.Precedes (s.runAll qs).2 :=
  fun _ h => h.runAll s qs

/-- The suppliers by which types are resolved: that of requests, and those inside of calls. -/
inductive Supplier.Genuine : Supplier → Prop where
  | request (writing : List Value) : Genuine ⟨writing, Deferred.supplier.answer⟩
  | call (n : Nat) (writing : List Value) : Genuine ⟨writing, Deferred.callWithin n⟩

theorem Supplier.Genuine.call_keeps {supply : Supplier} (h : supply.Genuine) (d : Deferred) :
    Keeps Session.KeepsTypes (supply.call d) := by
  cases h with
  | request writing => exact Session.KeepsTypes.custody.call writing d
  | call n writing => exact Session.KeepsTypes.custody.callWithin n writing d

theorem Supplier.Genuine.call_leaves {supply : Supplier} (h : supply.Genuine) {d : Deferred}
    (silent : d.body.readsTypes = false) : Keeps Session.LeavesTypes (supply.call d) := by
  have within := Session.LeavesTypes.ofCallWithin silent
  cases h with
  | request writing => exact Session.LeavesTypes.lasting.bounded fun n => within n writing
  | call n writing => exact within n writing

/-- A wrapper or an argument is built over a deferred type. -/
inductive Builds (d : Deferred) (s : Session) : Value → Session → Prop where
  | wrapper {w : Wrapper} {o : Value} {s' : Session} :
      Types.wrap w (.deferred d) s = .ok o s' → Builds d s o s'
  | argument {name description : Value} {default : Option Value} {q : Ref .argument}
      {s' : Session} : Arguments.create name (.deferred d) default description s = .ok q s' →
        Builds d s (.argument q) s'

/-- To build an object is not to call anything. -/
theorem Builds.rests {d : Deferred} {o : Value} {s s' : Session} (h : Builds d s o s') :
    s'.calls = s.calls ∧ s'.typeOf? o = none ∧ s'.Over (.deferred d) o := by
  cases h with
  | wrapper made =>
    simp only [Types.wrap] at made
    split at made
    · cases made
    · cases made
      have cell := Arena.get_add_self s.wrappers
        { source := some (.deferred d), resolved := none, extra := [] }
      refine ⟨rfl, congrArg WrappingType.resolved cell, .wrapper ?_ (congrArg WrappingType.source cell)⟩
      exact Nat.lt_of_lt_of_eq (Nat.lt_succ_self _) (Arena.size_add _ _).symm
  | argument made =>
    cases made
    have cell := Arena.get_add_self s.arguments
    refine ⟨rfl, congrArg Argument.resolved (cell _), .argument ?_ (congrArg Argument.source (cell _))⟩
    exact Nat.lt_of_lt_of_eq (Nat.lt_succ_self _) (Arena.size_add _ _).symm

/-- What holds of an object over a deferred type, at any time. An access that fails leaves what the
failed call left: the type is unknown, unless the call itself came to read it, which only a call
does that compares, hashes or writes data; and as long as the type is unknown, an access calls
again. A type once it is known is read from then on, without a call, and so is the type of a copy. -/
structure Lazily (d : Deferred) (o : Value) (s : Session) : Prop where
  raises {supply : Supplier} {f : Fault} {s' : Session} : supply.Genuine →
    Access.get supply o "type" s = .error f s' → supply.call d s = .error f s' ∧
      (d.body.readsTypes = false → s'.typeOf? o = none) ∧
      (s'.typeOf? o = none → ∀ supply', Access.get supply' o "type" s' =
        (do
          let t ← Supplier.call supply' d
          modify fun s : Session => s.keepType o t
          return t) s')
  yields {supply : Supplier} {t : Value} {s' : Session} : supply.Genuine →
    Access.get supply o "type" s = .ok t s' → t.isNull = false → ∀ s'', s'.Precedes s'' →
      ∀ supply', Access.get supply' o "type" s'' = .ok t s''
  copies {mode : CopyMode} {c : Value} {s' : Session} :
    o.copy Deferred.supplier mode s = .ok c s' → ∃ t, ∀ s'', s'.Precedes s'' →
      ∀ supply', Access.get supply' c "type" s'' = .ok t s''

/-- A type that was accessed is known, unless it is null. -/
theorem Session.Over.type_known {supply : Supplier} {s s' : Session} {d : Deferred} {o t : Value}
    (rests : s.Over (.deferred d) o) (genuine : supply.Genuine)
    (h : Access.get supply o "type" s = .ok t s') (given : t.isNull = false) :
    s'.Over (.deferred d) o ∧ s'.typeOf? o = some t := by
  cases known : s.typeOf? o with
  | some u =>
    rw [Access.type_of_known rests known] at h
    cases h
    exact ⟨rests, known⟩
  | none =>
    obtain ⟨s₁, called, rfl⟩ := Access.type_ok rests known h
    have rests₁ := rests.kept ((genuine.call_keeps d).of_ok called)
    refine ⟨?_, (rests₁.typeOf?_keepType t).trans (Types.kept_of_not_isNull given)⟩
    cases rests₁ with
    | wrapper live based =>
      refine .wrapper (Nat.lt_of_lt_of_eq live (Arena.size_put _ _ _).symm) ?_
      exact (congrArg WrappingType.source (Arena.get_put_self s₁.wrappers _ live)).trans based
    | argument live based =>
      refine .argument (Nat.lt_of_lt_of_eq live (Arena.size_put _ _ _).symm) ?_
      exact (congrArg Argument.source (Arena.get_put_self s₁.arguments _ live)).trans based

theorem Session.Over.lazily {s : Session} {d : Deferred} {o : Value} (rests : s.Over (.deferred d) o) :
    Lazily d o s where
  raises genuine failed := by
    obtain ⟨unknown, called⟩ := Access.type_error rests failed
    have kept := (genuine.call_keeps d).of_error called
    refine ⟨called, fun silent => ?_, Access.type_of_unknown (rests.kept kept)⟩
    rw [rests.typeOf?_left ((genuine.call_leaves silent).of_error called), unknown]
  yields genuine answered given s'' later supply' := by
    obtain ⟨rests', known⟩ := rests.type_known genuine answered given
    have kept : Session.KeepsTypes _ s'' := later _ Session.KeepsTypes.custody
    exact Access.type_of_known (rests'.kept kept) (rests'.typeOf?_kept kept known) supply'
  copies copied := by
    obtain ⟨t, known, -⟩ := rests.copy copied
    exact ⟨t, fun s'' later => known.type (later _ Session.KeepsTypes.custody)⟩

/-- A reference is not called when an object is built over it; from then on, whatever is requested,
accesses call it until one answers. -/
theorem reference_is_called_until_it_answers {d : Deferred} {o : Value} {s₀ s₁ : Session}
    (built : Builds d s₀ o s₁) : s₁.calls = s₀.calls ∧ s₁.typeOf? o = none ∧
      ∀ s, s₁.Precedes s → Lazily d o s := by
  obtain ⟨uncalled, unknown, rests⟩ := built.rests
  exact ⟨uncalled, unknown, fun s later =>
    (rests.kept (later _ Session.KeepsTypes.custody)).lazily⟩

def laterBoolean : Deferred := ⟨7, "z", .ref "Boolean"⟩

theorem later_boolean_is_resolved_once : ∃ o s₁, Builds laterBoolean BuiltIn.session o s₁ ∧
    ∀ qs, Lazily laterBoolean o (s₁.runAll qs).2 := by
  have made : Types.wrap .list (.deferred laterBoolean) BuiltIn.session =
      .ok (.wrapper .list ⟨BuiltIn.session.wrappers.size⟩)
        ((Types.wrap .list (.deferred laterBoolean)).after BuiltIn.session) := rfl
  have built : Builds laterBoolean BuiltIn.session _ _ := .wrapper made
  obtain ⟨-, -, always⟩ := reference_is_called_until_it_answers built
  exact ⟨_, _, built, fun qs => always _ (Session.precedes_runAll _ qs)⟩

/-- A list that holds two wrappers: the type of the first is a directive at a location that is the
list itself, and the type of the second cannot be had. -/
def entangled : List Request :=
  [.declare "L" (.list []),
    .declareType "o" (.wrap .list (.deferred "z" (.value (.directive .constructor (some (.text "x"))
      (some (.list [.ref "L"])) none none)))),
    .declareType "p" (.wrap .list (.deferred "b" (.raising .value "boom"))),
    .append (.ref "L") (.ref "o"),
    .append (.ref "L") (.ref "p")]

/-- An object whose reference writes the list that the object is in: the access inside of the call
answers, the call itself fails, and the next access makes no call. -/
theorem entangled_reference_is_not_called_again : ∃ (w : Wrapper) (r : Ref .wrapper) (f : Fault)
    (t : Value) (s' : Session), (BuiltIn.session.runAll entangled).2.typeOf? (.wrapper w r) = none ∧
      Access.get Deferred.supplier (.wrapper w r) "type" (BuiltIn.session.runAll entangled).2 =
        .error f s' ∧
      ∀ supply, Access.get supply (.wrapper w r) "type" s' = .ok t s' := by
  have unknown : ((BuiltIn.session.runAll entangled).2.typeOf? (.wrapper .list ⟨2⟩)).isNone =
      true := by decide +kernel
  have known : (((Access.get Deferred.supplier (.wrapper .list ⟨2⟩) "type").after
      (BuiltIn.session.runAll entangled).2).typeOf? (.wrapper .list ⟨2⟩)).isSome = true := by
    decide +kernel
  have fails : (Access.get Deferred.supplier (.wrapper .list ⟨2⟩) "type").fails
      (BuiltIn.session.runAll entangled).2 = true := by decide +kernel
  obtain ⟨f, s', failed⟩ := Action.error_of_fails fails
  rw [Action.after_of_error failed] at known
  obtain ⟨t, known⟩ := Option.isSome_iff_exists.1 known
  exact ⟨.list, ⟨2⟩, f, t, s', Option.isNone_iff_eq_none.1 unknown, failed, fun supply =>
    Types.wrapped_of_resolved known⟩

end DirectiveSchema

import DirectiveSchema.Proofs.Requests
import DirectiveSchema.Proofs.Verdict
import Mathlib.Data.List.Forall2

/-!
The journal of a session. Directives are built in one place, which notes them: so the notices of a
run tell of the directives that were built in it, one by one and in their order. What builds no
directive by itself gives no such notice, unless it calls a deferred type that does.
-/
namespace DirectiveSchema

variable {α β σ : Type} {s s' s'' t : Session} {n m : Nat}

/-! ### Notices of directives -/

/-- The notices that tell of a directive. -/
def creations (notices : List Notice) : List Notice := notices.filter fun n => !n.isWarning

@[simp] theorem creations_append (ns ms : List Notice) :
    creations (ns ++ ms) = creations ns ++ creations ms := List.filter_append _ _

theorem creations_of_warning {n : Notice} (warning : n.isWarning = true) : creations [n] = [] := by
  simp [creations, warning]

@[simp] theorem creations_created (name : String) (texts : List String) :
    creations [.created name texts] = [.created name texts] := rfl

/-- A notice tells of a directive: its name, and its locations in their order, as they read when it
was built. -/
def Directive.ToldBy (d : Directive) (n : Notice) : Prop :=
  ∃ (supply : Supplier) (s s' : Session) (texts : List String),
    d.locations.items.mapM (Display.label supply) s = .ok texts s' ∧
      n = .created (Directives.nameText d.name) texts

/-- Locations that are texts read as they are. -/
theorem Directive.ToldBy.of_texts {d : Directive} {n : Notice} (h : d.ToldBy n)
    (texts : ∀ l ∈ d.locations.items, l.text?.isSome = true) :
    n = .created (Directives.nameText d.name) (d.locations.items.map Directives.nameText) := by
  obtain ⟨supply, s, s', shown, labels, rfl⟩ := h
  have read : ∀ l ∈ d.locations.items,
      Display.label supply l s = .ok (Directives.nameText l) s := by
    intro l hl
    obtain ⟨x, text⟩ := Option.isSome_iff_exists.1 (texts l hl)
    rw [Validation.label_of_text text, Directives.nameText, text]
    rfl
  rw [Action.mapM_of_ok read] at labels
  cases labels
  rfl

namespace Directives

/-- A directive is noted as it is built, once the texts of its locations are there. -/
theorem register_eq (supply : Supplier) (c : Directive) (s : Session) :
    register supply c s = match c.locations.items.mapM (Display.label supply) s with
      | .ok texts t => .ok ⟨t.directives.size⟩ { t with
          directives := t.directives.add c
          journal := t.journal ++ [.created (nameText c.name) texts] }
      | .error f t => .error f t := by
  have named : Display.label supply c.name s = .ok (nameText c.name) s := by
    cases text : c.name.text? with
    | some name => rw [Validation.label_of_text text, nameText, text]; rfl
    | none =>
      have valid := c.named
      simp [Value.isName, text] at valid
  rw [register, Action.bind_of_ok named]
  cases labels : c.locations.items.mapM (Display.label supply) s with
  | ok texts t => exact Action.bind_of_ok labels
  | error f t => exact Action.bind_of_error labels

end Directives

/-! ### What leaves the journal alone -/

/-- No directive is built from one session to another, nothing is noted, and nothing is called. -/
structure Session.Unrecorded (s s' : Session) : Prop where
  directives : s'.directives = s.directives
  calls : s'.calls = s.calls
  journal : s'.journal = s.journal

namespace Session.Unrecorded

theorem refl (s : Session) : s.Unrecorded s := ⟨rfl, rfl, rfl⟩

theorem lasting : Lasting Session.Unrecorded where
  refl := refl
  trans h h' := ⟨h'.directives.trans h.directives, h'.calls.trans h.calls,
    h'.journal.trans h.journal⟩

theorem ofSet (v : Value) (key : String) (new : Value) :
    Keeps Session.Unrecorded (Access.set v key new) := by
  unfold Access.set
  split
  · exact lasting.throw _
  · split
    all_goals exact fun _ => ⟨rfl, rfl, rfl⟩

theorem without (s : Session) (v : Value) (key : String) :
    s.Unrecorded (Access.without s v key) := by
  cases v <;> exact ⟨rfl, rfl, rfl⟩

theorem ofDelete (v : Value) (key : String) :
    Keeps Session.Unrecorded (Access.delete v key) := by
  simp only [Access.delete]
  split
  · exact lasting.throwFirst _
  · split
    · exact lasting.throw _
    · exact lasting.throw _
    · refine lasting.bindGet fun s => ?_
      split
      · exact fun s => without s _ key
      · exact lasting.throw _

theorem ofAppend (v x : Value) : Keeps Session.Unrecorded (Access.append v x) := by
  unfold Access.append
  split
  · exact fun _ => ⟨rfl, rfl, rfl⟩
  · exact lasting.throw _

end Session.Unrecorded

/-! ### The directives of a session and its notices -/

/-- The directives that were built from one session to another are those that were noted, in their
order. -/
def Session.Records (s s' : Session) : Prop :=
  ∃ built notices, s'.directives.toList = s.directives.toList ++ built ∧
    s'.journal = s.journal ++ notices ∧ List.Forall₂ Directive.ToldBy built (creations notices)

namespace Session.Records

/-- Nothing was built, and nothing was noted. -/
theorem beside (directives : s'.directives = s.directives) (journal : s'.journal = s.journal) :
    s.Records s' := by
  refine ⟨[], [], ?_, ?_, .nil⟩
  · rw [directives, List.append_nil]
  · rw [journal, List.append_nil]

theorem ofUnrecorded (h : s.Unrecorded s') : s.Records s' := beside h.directives h.journal

theorem trans (h : s.Records s') (h' : s'.Records s'') : s.Records s'' := by
  obtain ⟨ds, ns, built, noted, told⟩ := h
  obtain ⟨ds', ns', built', noted', told'⟩ := h'
  refine ⟨ds ++ ds', ns ++ ns', ?_, ?_, ?_⟩
  · rw [built', built, List.append_assoc]
  · rw [noted', noted, List.append_assoc]
  · rw [creations_append]
    exact List.rel_append told told'

theorem lasting : Lasting Session.Records where
  refl _ := beside rfl rfl
  trans := trans

/-- To build a directive is to note it. -/
theorem register {answer : List Value → Deferred → Action Value}
    (reading : Observing answer (Keeps Session.Records)) (ws : List Value) (c : Directive) :
    Keeps Session.Records (Directives.register ⟨ws, answer⟩ c) := by
  intro s
  have written : Keeps Session.Records (c.locations.items.mapM (Display.label ⟨ws, answer⟩)) :=
    reading.mapM (reading.label ws) _
  cases labels : c.locations.items.mapM (Display.label ⟨ws, answer⟩) s with
  | error f t =>
    have run : Directives.register ⟨ws, answer⟩ c s = .error f t := by
      rw [Directives.register_eq, labels]
    rw [Action.after_of_error run]
    exact written.of_error labels
  | ok texts t =>
    have run := Directives.register_eq ⟨ws, answer⟩ c s
    rw [labels] at run
    rw [Action.after_of_ok run]
    refine (written.of_ok labels).trans ⟨[c], [.created _ texts], ?_, rfl, ?_⟩
    · simp [Arena.toList, Arena.add]
    · exact .cons ⟨_, s, t, texts, labels, rfl⟩ .nil

theorem answered : Answered Session.Records :=
  { lasting with
    freshTag := fun _ => beside rfl rfl
    newList := fun _ _ => beside rfl rfl
    newSet := fun _ _ => beside rfl rfl
    newDict := fun _ _ => beside rfl rfl
    newNamedType := fun _ _ => beside rfl rfl
    newScalar := fun _ _ => beside rfl rfl
    newWrapper := fun _ _ => beside rfl rfl
    createArgument := fun _ _ _ _ _ => beside rfl rfl
    count := fun _ _ => beside rfl rfl
    register := register
    wrapped := lasting.wrapped fun kept _ _ _ => kept
    type := lasting.type fun kept _ _ => kept }

/-- A warning tells of no directive. -/
theorem warn (n : Notice) (warning : n.isWarning = true) :
    Keeps Session.Records (Action.note n) := by
  refine fun s => ⟨[], [n], (List.append_nil _).symm, rfl, ?_⟩
  rw [creations_of_warning warning]
  exact .nil

theorem handling : Handling Session.Records fun _ => Session.Records :=
  { lasting, answered.toStocking with
    checked := { answered.reading with warn }
    call := answered.call
    madeList := answered.newList []
    madeSet := answered.newSet []
    madeDict := answered.newDict []
    madeNamedType := answered.newNamedType .blank
    madeWrapper := answered.newWrapper .blank
    newArgument := fun _ _ => beside rfl rfl
    madeArgument := fun _ => beside rfl rfl
    later := trans
    since := id
    fillList := fun _ kept => kept
    fillSet := fun _ kept => kept
    fillDict := fun _ kept => kept
    fillNamedType := fun _ kept => kept
    fillWrapper := fun _ kept => kept
    fillArgument := fun _ kept => kept
    bound := fun _ _ => beside rfl rfl
    set := fun v key new s => ofUnrecorded (Unrecorded.ofSet v key new s)
    delete := fun v key s => ofUnrecorded (Unrecorded.ofDelete v key s)
    append := fun v x s => ofUnrecorded (Unrecorded.ofAppend v x s) }

/-- The notices of a reply tell of the directives that were built for the request. -/
theorem run (s : Session) (q : Request) : ∃ built,
    (s.run q).2.directives.toList = s.directives.toList ++ built ∧
      List.Forall₂ Directive.ToldBy built (creations (s.run q).1.notices) := by
  have performed := handling.serving.perform q (fun _ => answered.toBuilding) fun _ _ => trivial
  obtain ⟨built, notices, directives, journal, told⟩ :=
    handling.checked.guard performed { s with journal := [] }
  simp only [Session.run]
  cases result : Answer.guard Deferred.supplier (q.perform Deferred.supplier)
      { s with journal := [] } with
  | ok o s' =>
    rw [Action.after_of_ok result] at directives journal
    refine ⟨built, directives, ?_⟩
    show List.Forall₂ _ built (creations s'.journal)
    exact journal ▸ told
  | error f s' =>
    rw [Action.after_of_error result] at directives journal
    refine ⟨built, directives, ?_⟩
    show List.Forall₂ _ built (creations s'.journal)
    exact journal ▸ told

theorem runAll (s : Session) (qs : List Request) : ∃ built,
    (s.runAll qs).2.directives.toList = s.directives.toList ++ built ∧
      List.Forall₂ Directive.ToldBy built
        (creations ((s.runAll qs).1.flatMap Reply.notices)) := by
  induction qs generalizing s with
  | nil => exact ⟨[], (List.append_nil _).symm, .nil⟩
  | cons q qs ih =>
    obtain ⟨ds, built, told⟩ := run s q
    obtain ⟨ds', built', told'⟩ := ih (s.run q).2
    refine ⟨ds ++ ds', ?_, ?_⟩
    · rw [← List.append_assoc, ← built]
      exact built'
    · simp only [Session.runAll, List.flatMap_cons, creations_append]
      exact List.rel_append told told'

end Session.Records

/-! ### How many directives are built -/

/-- From one session to another so many directives were built, besides those that deferred types
built when they were called. -/
structure Session.Gains (n : Nat) (s s' : Session) : Prop where
  calls : s.calls <:+ s'.calls
  least : s.directives.size + n ≤ s'.directives.size
  uncalled : s'.calls = s.calls → s'.directives.size = s.directives.size + n

namespace Session.Gains

theorem trans (h : s.Gains n s') (h' : s'.Gains m s'') : s.Gains (n + m) s'' where
  calls := h.calls.trans h'.calls
  least := by have := h.least; have := h'.least; omega
  uncalled same := by
    have first : s'.calls = s.calls :=
      (h.calls.eq_of_length_le (same ▸ h'.calls.length_le)).symm
    rw [h'.uncalled (same.trans first.symm), h.uncalled first, Nat.add_assoc]

theorem beside (directives : s'.directives = s.directives) (calls : s'.calls = s.calls) :
    s.Gains 0 s' where
  calls := calls ▸ List.suffix_rfl
  least := Nat.le_of_eq (congrArg Arena.size directives.symm)
  uncalled _ := congrArg Arena.size directives

theorem ofUnrecorded (h : s.Unrecorded s') : s.Gains 0 s' := beside h.directives h.calls

theorem lasting : Lasting (Session.Gains 0) where
  refl _ := beside rfl rfl
  trans := trans

/-- Where something was called, nothing is said of what was built meanwhile. -/
theorem ofCalled (calls : s.calls <:+ s'.calls) (least : s.directives.size ≤ s'.directives.size)
    (more : s'.calls ≠ s.calls) : s.Gains 0 s' := ⟨calls, least, fun same => absurd same more⟩

end Session.Gains

/-- Calls are added to those that were counted, and directives to those that were built. -/
structure Session.Proceeds (s s' : Session) : Prop where
  calls : s.calls <:+ s'.calls
  directives : s.directives.size ≤ s'.directives.size

namespace Session.Proceeds

theorem refl (s : Session) : s.Proceeds s := ⟨List.suffix_rfl, Nat.le_refl _⟩

theorem lasting : Lasting Session.Proceeds where
  refl := refl
  trans h h' := ⟨h.calls.trans h'.calls, Nat.le_trans h.directives h'.directives⟩

theorem calling : Calling Session.Proceeds where
  toLasting := lasting
  freshTag s := { refl s with }
  newList _ s := { refl s with }
  newSet _ s := { refl s with }
  newDict _ s := { refl s with }
  newNamedType _ s := { refl s with }
  newScalar _ s := { refl s with }
  newWrapper _ s := { refl s with }
  newArgument _ s := { refl s with }
  newDirective c s := ⟨List.suffix_rfl, by
    show s.directives.size ≤ (s.directives.add c).size
    rw [Arena.size_add]
    exact Nat.le_succ _⟩
  created _ _ s := { refl s with }
  count counter s := ⟨List.suffix_cons counter s.calls, Nat.le_refl _⟩
  wrapped := lasting.wrapped fun kept _ _ _ => { kept with }
  type := lasting.type fun kept _ _ => { kept with }

end Session.Proceeds

namespace Session.Gains

/-- A call is counted before anything is built for it. -/
theorem ofEvaluate {answer : List Value → Deferred → Action Value}
    (answers : ∀ ws d, Keeps Session.Proceeds (answer ws d)) (ws : List Value) (d : Deferred) :
    Keeps (Session.Gains 0) (d.evaluate ⟨ws, answer⟩) := by
  intro s
  have later : Session.Proceeds { s with calls := d.counter :: s.calls }
      ((d.evaluate ⟨ws, answer⟩).after s) :=
    Proceeds.calling.evalType ws d.body
      (fun _ => (Proceeds.calling.resolving answers).toObserving)
      (fun _ => Proceeds.calling.toBuilding) { s with calls := d.counter :: s.calls }
  refine ofCalled ((List.suffix_cons _ _).trans later.calls) later.directives fun same => ?_
  have longer := later.calls.length_le
  rw [same] at longer
  exact Nat.not_succ_le_self _ longer

theorem ofCall (ws : List Value) (d : Deferred) :
    Keeps (Session.Gains 0) (Deferred.supplier.answer ws d) := by
  have within (n : Nat) : Keeps (Session.Gains 0) (Deferred.callWithin n ws d) := by
    cases n with
    | zero =>
      unfold Deferred.callWithin
      split
      · exact ofEvaluate (fun _ _ => Proceeds.lasting.throw _) ws d
      · exact lasting.throw _
    | succ n => exact ofEvaluate (Proceeds.calling.callWithin n) ws d
  exact lasting.bounded within

theorem stocking : Stocking (Keeps (Session.Gains 0)) :=
  { lasting.closed with
    freshTag := fun _ => beside rfl rfl
    newList := fun _ _ => beside rfl rfl
    newSet := fun _ _ => beside rfl rfl
    newDict := fun _ _ => beside rfl rfl
    newNamedType := fun _ _ => beside rfl rfl
    newScalar := fun _ _ => beside rfl rfl
    newWrapper := fun _ _ => beside rfl rfl
    createArgument := fun _ _ _ _ _ => beside rfl rfl
    count := fun _ _ => ofCalled (List.suffix_cons _ _) (Nat.le_refl _) (List.cons_ne_self _ _) }

/-- To look at data, to change them and to copy them builds no directives. -/
theorem handling : Handling (Session.Gains 0) fun _ => Session.Gains 0 :=
  { lasting, stocking with
    checked :=
      { lasting, lasting.closed with
        wrapped := fun ws => lasting.wrapped (fun kept _ _ _ => { kept with }) ofCall ws
        type := fun ws => lasting.type (fun kept _ _ => { kept with }) ofCall ws
        warn := fun _ _ _ => beside rfl rfl }
    call := ofCall
    madeList := stocking.newList []
    madeSet := stocking.newSet []
    madeDict := stocking.newDict []
    madeNamedType := stocking.newNamedType .blank
    madeWrapper := stocking.newWrapper .blank
    newArgument := fun _ _ => beside rfl rfl
    madeArgument := fun _ => beside rfl rfl
    later := trans
    since := id
    fillList := fun _ kept => { kept with }
    fillSet := fun _ kept => { kept with }
    fillDict := fun _ kept => { kept with }
    fillNamedType := fun _ kept => { kept with }
    fillWrapper := fun _ kept => { kept with }
    fillArgument := fun _ kept => { kept with }
    bound := fun _ _ => beside rfl rfl
    set := fun v key new s => ofUnrecorded (Unrecorded.ofSet v key new s)
    delete := fun v key s => ofUnrecorded (Unrecorded.ofDelete v key s)
    append := fun v x s => ofUnrecorded (Unrecorded.ofAppend v x s) }

/-- A request that builds no directive by itself leaves the directives as they were, unless a
deferred type is called for it. -/
theorem run (s : Session) {q : Request} (constructs : q.constructs = false) :
    s.Gains 0 (s.run q).2 := by
  have building (builds : q.constructs = true) : Building (Keeps (Session.Gains 0)) := by
    rw [constructs] at builds
    cases builds
  have performed := handling.serving.perform q building fun _ _ => trivial
  have kept := handling.checked.guard performed { s with journal := [] }
  simp only [Session.run]
  cases result : Answer.guard Deferred.supplier (q.perform Deferred.supplier)
      { s with journal := [] } with
  | ok o s' =>
    rw [Action.after_of_ok result] at kept
    exact { kept with }
  | error f s' =>
    rw [Action.after_of_error result] at kept
    exact { kept with }

end Session.Gains

/-- Nothing is noted of directives where none was built. -/
theorem Session.Records.silent {built : List Directive} {notices : List Notice}
    (h : s'.directives.toList = s.directives.toList ++ built)
    (told : List.Forall₂ Directive.ToldBy built (creations notices)) (gains : s.Gains 0 s')
    (uncalled : s'.calls = s.calls) : creations notices = [] := by
  have size : s'.directives.toList.length = s.directives.toList.length :=
    gains.uncalled uncalled
  rw [h, List.length_append, Nat.add_eq_left, List.length_eq_zero_iff] at size
  cases size
  exact List.forall₂_nil_left_iff.1 told

end DirectiveSchema

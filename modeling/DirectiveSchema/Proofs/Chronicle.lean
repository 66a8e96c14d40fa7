import DirectiveSchema.Proofs.Construction
import DirectiveSchema.Proofs.Enumeration
import DirectiveSchema.Proofs.Journal

/-!
The chronicle of a run: which operations build directives, and how many. A constructor builds one
or fails, and to restore a stored copy is to build one for every directive that its picture shows.
A picture shows every directive once, and once more each time that it is met inside itself: it is
numbered after its parts, and until then it is not known to have been met.
-/
namespace DirectiveSchema

variable {α β σ : Type} {s s' t : Session} {n m : Nat}

/-! ### Construction -/

namespace Directives

variable {name locations args description : Value} {r : Ref .directive} {f : Fault}

/-- A construction fails before anything is registered, or registers what it was given. -/
theorem create_cases (name locations args description : Value) (s : Session) :
    (∃ f t, create Deferred.supplier name locations args description s = .error f t ∧
      s.Gains 0 t) ∨
    ∃ c tag, c.name = name ∧ create Deferred.supplier name locations args description s =
      register Deferred.supplier c { s with nextTag := tag } := by
  by_cases falsy : s.Falsy name
  · exact .inl ⟨_, _, create_of_falsy falsy, .beside rfl rfl⟩
  cases named : name.isName with
  | false =>
    have written : Keeps (Session.Gains 0) (Display.label Deferred.supplier name) :=
      Session.Gains.handling.checked.label [] name
    refine .inl ?_
    cases shown : Display.label Deferred.supplier name s with
    | ok text t =>
      exact ⟨_, t, create_of_not_isName falsy named shown, written.of_ok shown⟩
    | error f t =>
      refine ⟨f, t, ?_, written.of_error shown⟩
      obtain ⟨b, truth, iff⟩ := Container.isTruthy_decides name s
      rw [(by simpa using mt iff.1 falsy : b = true)] at truth
      have refused : assertName Deferred.supplier name s = .error f t := by
        rw [assertName, dif_neg (by simp [named]), Action.bind_of_error shown]
      simp only [create]
      rw [Action.bind_of_ok truth]
      exact Action.bind_of_error refused
  | true =>
    cases listed : isLocationsList locations with
    | false => exact .inl ⟨_, _, create_of_not_isLocationsList named listed, .beside rfl rfl⟩
    | true =>
      by_cases given : args = .null ∨ args.isIterable = true
      · obtain ⟨args', tag, argued, -⟩ := argsOf_of_isIterable given s
        obtain ⟨locations', tag', located, -⟩ :=
          rowOf_of_isIterable (isIterable_of_isLocationsList listed) { s with nextTag := tag }
        refine .inr ⟨⟨name, named, description, locations', args'⟩, tag', rfl, ?_⟩
        simp only [create, listed]
        rw [Action.bind_of_ok (isTruthy_of_isName named s)]
        refine (Action.bind_of_ok (assertName_of_isName named s)).trans ?_
        refine (Action.bind_of_ok argued).trans ?_
        exact Action.bind_of_ok located
      · obtain ⟨some, uniterable⟩ := not_or.1 given
        have uniterable : args.isIterable = false := by simpa using uniterable
        exact .inl ⟨_, _, create_of_not_isIterable named listed some uniterable, .beside rfl rfl⟩

/-- A construction that fails builds no directive. -/
theorem create_gains_of_error
    (h : create Deferred.supplier name locations args description s = .error f t) :
    s.Gains 0 t := by
  obtain ⟨f', t', run, gains⟩ | ⟨c, tag, -, run⟩ := create_cases name locations args description s
  · rw [run] at h
    cases h
    exact gains
  · rw [run, register_eq] at h
    have written : Keeps (Session.Gains 0)
        (c.locations.items.mapM (Display.label Deferred.supplier)) :=
      Session.Gains.handling.mapM (Session.Gains.handling.checked.label []) _
    have fresh : s.Gains 0 { s with nextTag := tag } := .beside rfl rfl
    split at h
    · cases h
    · rename_i labels
      cases h
      exact fresh.trans (written.of_error labels)

/-- A construction that returns built one directive, the last one, of what it was given, and noted
it in the end. -/
theorem create_noted (h : create Deferred.supplier name locations args description s = .ok r t) :
    Noted s name locations args description r t ∧ s.Gains 1 t := by
  have built := (create_ok h).2
  obtain ⟨f', t', run, -⟩ | ⟨c, tag, same, run⟩ := create_cases name locations args description s
  · rw [run] at h
    cases h
  · rw [run, register_eq] at h
    have written : Keeps (Session.Gains 0)
        (c.locations.items.mapM (Display.label Deferred.supplier)) :=
      Session.Gains.handling.mapM (Session.Gains.handling.checked.label []) _
    have fresh : s.Gains 0 { s with nextTag := tag } := .beside rfl rfl
    split at h
    · rename_i texts u labels
      cases h
      have cell : Session.directive { u with
          directives := u.directives.add c
          journal := u.journal ++ [.created (nameText c.name) texts] } ⟨u.directives.size⟩ = c :=
        Arena.get_add_self _ _
      have last : u.Gains 1 { u with
          directives := u.directives.add c
          journal := u.journal ++ [.created (nameText c.name) texts] } := by
        constructor
        · exact List.suffix_rfl
        · exact Nat.le_of_eq (Arena.size_add _ _).symm
        · exact fun _ => Arena.size_add _ _
      refine ⟨⟨built, nameText c.name, texts, u, tag, ?_, ?_, rfl, ?_⟩, ?_⟩
      · have valid := c.named
        rw [← same]
        cases spelt : c.name.text? with
        | some n => rw [nameText, spelt]; rfl
        | none => simp [Value.isName, spelt] at valid
      · rw [cell]
        exact labels
      · rw [cell]
      · exact (fresh.trans (written.of_ok labels)).trans last
    · cases h

end Directives

/-! ### How many directives an action builds -/

/-- An action that returns built as many directives, and one that fails built no more. -/
def Creates (n : Nat) (act : Action α) : Prop :=
  ∀ s, match act s with
    | .ok _ t => s.Gains n t
    | .error _ t => ∃ m, m ≤ n ∧ s.Gains m t

/-- An action that carries something along builds as many directives. -/
def CreatesWith (n : Nat) (x : StateT σ Action α) : Prop := ∀ carried, Creates n (x carried)

namespace Creates

theorem of_ok {act : Action α} {a : α} (h : Creates n act) (run : act s = .ok a t) :
    s.Gains n t := by
  have built := h s
  rwa [run] at built

theorem of_error {act : Action α} {f : Fault} (h : Creates n act) (run : act s = .error f t) :
    ∃ m, m ≤ n ∧ s.Gains m t := by
  have built := h s
  rwa [run] at built

theorem intro {act : Action α} (ok : ∀ s a t, act s = .ok a t → s.Gains n t)
    (error : ∀ s f t, act s = .error f t → ∃ m, m ≤ n ∧ s.Gains m t) : Creates n act := by
  intro s
  cases run : act s with
  | ok a t => exact ok s a t run
  | error f t => exact error s f t run

theorem ofKeeps {act : Action α} (h : Keeps (Session.Gains 0) act) : Creates 0 act :=
  intro (fun _ _ _ => h.of_ok) fun _ _ _ run => ⟨0, Nat.le_refl 0, h.of_error run⟩

theorem bind {act : Action α} {f : α → Action β} (first : Creates n act)
    (rest : ∀ a, Creates m (f a)) : Creates (n + m) (act >>= f) := by
  intro s
  cases run : act s with
  | ok a u =>
    rw [Action.bind_of_ok run]
    have built := first.of_ok run
    cases run' : f a u with
    | ok b t => exact built.trans ((rest a).of_ok run')
    | error e t =>
      obtain ⟨k, le, later⟩ := (rest a).of_error run'
      exact ⟨n + k, Nat.add_le_add_left le n, built.trans later⟩
  | error e u =>
    rw [Action.bind_of_error run]
    obtain ⟨k, le, built⟩ := first.of_error run
    exact ⟨k, Nat.le_add_right_of_le le, built⟩

/-- A constructor builds one directive. -/
theorem create (name locations args description : Value) :
    Creates 1 (Directives.create Deferred.supplier name locations args description) :=
  intro (fun _ _ _ run => (Directives.create_noted run).2)
    fun _ _ _ run => ⟨0, Nat.zero_le 1, Directives.create_gains_of_error run⟩

end Creates

namespace CreatesWith

theorem ofKeeps {x : StateT σ Action α} (h : KeepsWith (Session.Gains 0) x) : CreatesWith 0 x :=
  fun carried => .ofKeeps (h carried)

theorem pure (a : α) : CreatesWith 0 (Pure.pure a : StateT σ Action α) :=
  ofKeeps (Session.Gains.lasting.pureWith a)

theorem bind {x : StateT σ Action α} {f : α → StateT σ Action β} (first : CreatesWith n x)
    (rest : ∀ a, CreatesWith m (f a)) : CreatesWith (n + m) (x >>= f) :=
  fun carried => (first carried).bind fun p => rest p.1 p.2

/-- What builds no directive follows. -/
theorem follow {x : StateT σ Action α} {f : α → StateT σ Action β} (first : CreatesWith n x)
    (rest : ∀ a, CreatesWith 0 (f a)) : CreatesWith n (x >>= f) := first.bind rest

/-- What builds no directive comes first. -/
theorem after {x : StateT σ Action α} {f : α → StateT σ Action β} (first : CreatesWith 0 x)
    (rest : ∀ a, CreatesWith n (f a)) : CreatesWith n (x >>= f) := Nat.zero_add n ▸ first.bind rest

theorem lift {act : Action α} (h : Creates n act) :
    CreatesWith n (liftM act : StateT σ Action α) := fun carried =>
  h.bind fun a => .ofKeeps (Session.Gains.lasting.pure (a, carried))

end CreatesWith

/-! ### Restoring -/

namespace Snapshot.Building

open Session.Gains

variable {k : Nat}

theorem settle (k : Nat) (v : Value) : CreatesWith 0 (Snapshot.settle k v) :=
  .ofKeeps (handling.settle k v)

theorem fill {kind : CellKind} {content : Type} {new : Action (Ref kind)}
    {value : Ref kind → Value} {put : Session → Ref kind → content → Session}
    {build : Restoring content} (made : Keeps (Session.Gains 0) new)
    (filled : ∀ (s : Session) r c, s.Gains 0 (put s r c)) (inner : CreatesWith n build) :
    CreatesWith n (Snapshot.fill k new value put build) := by
  refine (CreatesWith.lift (.ofKeeps made)).after fun r => (settle k (value r)).after fun v => ?_
  refine inner.follow fun c => CreatesWith.after (.ofKeeps ?_) fun _ => .pure v
  exact fun _ s => filled s r c

theorem make {parts : Type} (slot : Slot) {build : Restoring parts}
    {construct : parts → Action Value} (inner : CreatesWith n build)
    (made : ∀ c, Creates m (construct c)) : CreatesWith (n + m) (Snapshot.make slot build construct) :=
  inner.bind fun c => (CreatesWith.lift (made c)).follow fun v => .ofKeeps (handling.place slot v)

/-- An object other than a directive is made of its parts. -/
theorem makeOther {parts : Type} (slot : Slot) {build : Restoring parts}
    {construct : parts → Action Value} (inner : CreatesWith n build)
    (made : ∀ c, Keeps (Session.Gains 0) (construct c)) :
    CreatesWith n (Snapshot.make slot build construct) := make slot inner fun c => .ofKeeps (made c)

theorem fields {name locations args description : Restoring Value} {n₁ n₂ n₃ n₄ : Nat}
    (first : CreatesWith n₁ name) (second : CreatesWith n₂ locations) (third : CreatesWith n₃ args)
    (fourth : CreatesWith n₄ description) :
    CreatesWith (n₁ + n₂ + n₃ + n₄) (Snapshot.fields name locations args description) := by
  have all := first.bind fun a => second.bind fun b => third.bind fun c =>
    fourth.follow fun d => .pure (Fields.mk a b c d)
  rwa [← Nat.add_assoc, ← Nat.add_assoc] at all

mutual

/-- What is pictured is restored by building a directive for each picture of one. -/
theorem restoreWith (p : Snapshot) :
    CreatesWith (p.nodes.countP isDirective) (Snapshot.restoreWith Deferred.supplier p) := by
  cases p with
  | atom v => exact .pure v
  | nan => exact (CreatesWith.lift (.ofKeeps (stocking.freshTag))).after fun _ => .pure _
  | seen k => exact .ofKeeps (handling.built k)
  | foreign k text =>
    exact (CreatesWith.lift (.ofKeeps (stocking.freshTag))).after fun _ => settle k _
  | tuple slot items =>
    refine makeOther slot (restoreAll items) fun c => ?_
    exact lasting.bind (handling.newRow _) fun _ => lasting.pure _
  | config slot name locations args description =>
    have inner := fields (restoreWith name) (restoreWith locations) (restoreWith args)
      (restoreWith description)
    rw [nodes, List.countP_cons_of_neg Bool.false_ne_true, List.countP_append, List.countP_append,
      List.countP_append]
    exact makeOther slot inner fun c => lasting.bind stocking.freshTag fun _ => lasting.pure _
  | list k items =>
    exact fill (stocking.newList []) (fun _ _ _ => beside rfl rfl) (restoreAll items)
  | set k items =>
    refine fill (stocking.newSet []) (fun _ _ _ => beside rfl rfl) ?_
    exact (restoreAll items).follow fun vs =>
      .lift (.ofKeeps (handling.checked.distinct [] vs))
  | dict k entries =>
    refine fill (stocking.newDict []) (fun _ _ _ => beside rfl rfl) ?_
    exact (restoreEntries entries).follow fun pairs =>
      .lift (.ofKeeps (handling.checked.dictionary [] pairs))
  | named k name extra =>
    rw [nodes, List.countP_cons_of_neg Bool.false_ne_true, List.countP_append]
    refine fill (stocking.newNamedType .blank) (fun _ _ _ => beside rfl rfl) ?_
    exact (restorePart name).bind fun _ => (restoreAttributes extra).follow fun _ => .pure _
  | scalar slot name description serialize parse =>
    rw [nodes, List.countP_cons_of_neg Bool.false_ne_true, List.countP_append]
    have inner := (restoreWith name).bind fun a => (restoreWith description).follow fun b =>
      .pure (a, b)
    refine makeOther slot inner fun c => ?_
    exact lasting.bind (stocking.newScalar _) fun _ => lasting.pure _
  | wrapper k w type =>
    refine fill (stocking.newWrapper .blank) (fun _ _ _ => beside rfl rfl) ?_
    exact (restoreWith type).follow fun t => .pure _
  | argument k name description hasDefault default type extra =>
    rw [nodes, List.countP_cons_of_neg Bool.false_ne_true, List.countP_append, List.countP_append,
      List.countP_append, List.countP_append, List.countP_append]
    simp only [Nat.add_assoc]
    refine fill (handling.newArgument .blank) (fun _ _ _ => beside rfl rfl) ?_
    refine (restorePart name).bind fun _ => (restorePart description).bind fun _ => ?_
    refine (restorePart hasDefault).bind fun _ => (restorePart default).bind fun _ => ?_
    exact (restoreWith type).bind fun _ => (restoreAttributes extra).follow fun _ => .pure _
  | directive slot name locations args description =>
    have inner := fields (restoreWith name) (restoreWith locations) (restoreWith args)
      (restoreWith description)
    rw [nodes, List.countP_cons_of_pos rfl, List.countP_append, List.countP_append,
      List.countP_append]
    refine make slot inner fun c => ?_
    exact (Creates.create _ _ _ _).bind fun _ => .ofKeeps (lasting.pure _)

theorem restoreAll (ps : List Snapshot) :
    CreatesWith ((nodesAll ps).countP isDirective)
      (Snapshot.restoreAll Deferred.supplier ps) := by
  cases ps with
  | nil => exact .pure _
  | cons p ps =>
    rw [nodesAll, List.countP_append]
    exact (restoreWith p).bind fun v => (restoreAll ps).follow fun vs => .pure _

theorem restoreEntries (ps : List (Snapshot × Snapshot)) :
    CreatesWith ((nodesOfEntries ps).countP isDirective)
      (Snapshot.restoreEntries Deferred.supplier ps) := by
  cases ps with
  | nil => exact .pure _
  | cons p ps =>
    obtain ⟨k, v⟩ := p
    rw [nodesOfEntries, List.countP_append, List.countP_append, Nat.add_assoc]
    exact (restoreWith k).bind fun x => (restoreWith v).bind fun y =>
      (restoreEntries ps).follow fun vs => .pure _

theorem restorePart (o : Option Snapshot) :
    CreatesWith ((nodesOfPart o).countP isDirective)
      (Snapshot.restorePart Deferred.supplier o) := by
  cases o with
  | none => exact .pure _
  | some p => exact (restoreWith p).follow fun v => .pure _

theorem restoreAttributes (ps : List (String × Snapshot)) :
    CreatesWith ((nodesOfAttributes ps).countP isDirective)
      (Snapshot.restoreAttributes Deferred.supplier ps) := by
  cases ps with
  | nil => exact .pure _
  | cons p ps =>
    obtain ⟨key, p⟩ := p
    rw [nodesOfAttributes, List.countP_append]
    exact (restoreWith p).bind fun v => (restoreAttributes ps).follow fun vs => .pure _

end

theorem restore (p : Snapshot) :
    Creates (p.nodes.countP isDirective) (Snapshot.restore Deferred.supplier p) :=
  (restoreWith p []).bind fun _ => .ofKeeps (lasting.pure _)

end Snapshot.Building

/-! ### Chronicles -/

/-- How a stored copy of a datum ends. While its picture is taken no directive is built. Then there
is one for each directive that was met, and another one for each time that one was met again inside
itself; if it fails to be restored there may be fewer. -/
inductive Session.Copies (s : Session) (v : Value) :
    EStateM.Result Fault Session Value → Prop where
  | untaken {f : Fault} {t : Session} : s.Gains 0 t → s.Copies v (.error f t)
  | restored {k : Nat} {p : Snapshot} {met : List Value} {u t : Session} {x : Value} :
      Snapshot.takeWithin Deferred.supplier k v [] s = .ok (p, met) u →
      Snapshot.Enumerates [] met p.nodes →
      s.Gains (met.countP Value.isDirective + p.nodes.countP Snapshot.isAgain) t →
        s.Copies v (.ok x t)
  | unrestored {k m : Nat} {p : Snapshot} {met : List Value} {f : Fault} {u t : Session} :
      Snapshot.takeWithin Deferred.supplier k v [] s = .ok (p, met) u →
      Snapshot.Enumerates [] met p.nodes →
      m ≤ met.countP Value.isDirective + p.nodes.countP Snapshot.isAgain → s.Gains m t →
        s.Copies v (.error f t)

theorem Snapshot.Enumerates.countP_isDirective {met : List Value} {ps : List Snapshot}
    (h : Snapshot.Enumerates [] met ps) : ps.countP Snapshot.isDirective =
      met.countP Value.isDirective + ps.countP Snapshot.isAgain := by
  rw [Snapshot.countP_isDirective, h.once, List.countP_nil, Nat.zero_add]

theorem Session.copies_stored (s : Session) (v : Value) :
    s.Copies v (v.copy Deferred.supplier .stored s) := by
  have pictured : Keeps (Session.Gains 0) (Snapshot.take Deferred.supplier v) :=
    Session.Gains.handling.checked.take [] v
  show s.Copies v (Snapshot.copy Deferred.supplier v s)
  cases taken : Snapshot.take Deferred.supplier v s with
  | error f u =>
    rw [show Snapshot.copy Deferred.supplier v s = .error f u from Action.bind_of_error taken]
    exact .untaken (pictured.of_error taken)
  | ok p u =>
    have gains := pictured.of_ok taken
    obtain ⟨k, met, run, -, -, -, enumerates⟩ := Snapshot.enumerating.take trivial taken
    have count := enumerates.countP_isDirective
    rw [show Snapshot.copy Deferred.supplier v s = Snapshot.restore Deferred.supplier p u
      from Action.bind_of_ok taken]
    cases restored : Snapshot.restore Deferred.supplier p u with
    | ok x t =>
      have built := gains.trans ((Snapshot.Building.restore p).of_ok restored)
      rw [Nat.zero_add, count] at built
      exact .restored run enumerates built
    | error f t =>
      obtain ⟨m, le, built⟩ := (Snapshot.Building.restore p).of_error restored
      exact .unrestored run enumerates (count ▸ le) (Nat.zero_add m ▸ gains.trans built)

/-- What builds no directive fails, or something follows. -/
theorem Session.Gains.fails_or_follows {act : Action α} (h : Keeps (Session.Gains 0) act)
    (f : α → Action β) (s : Session) :
    (∃ e t, (act >>= f) s = .error e t ∧ s.Gains 0 t) ∨
      ∃ a u, s.Gains 0 u ∧ (act >>= f) s = f a u := by
  cases run : act s with
  | ok a u => exact .inr ⟨a, u, h.of_ok run, Action.bind_of_ok run⟩
  | error e t => exact .inl ⟨e, t, Action.bind_of_error run, h.of_error run⟩

/-- A configuration fails to be read, or a directive is built of it. -/
theorem Access.fromConfig_cases (v : Value) (s : Session) :
    (∃ f t, fromConfig Deferred.supplier v s = .error f t ∧ s.Gains 0 t) ∨
    ∃ name locations args description u, s.Gains 0 u ∧ fromConfig Deferred.supplier v s =
      Directives.create Deferred.supplier name locations args description u := by
  have field (key : String) : Keeps (Session.Gains 0) (get Deferred.supplier v key) :=
    Session.Gains.handling.checked.get v key
  rw [fromConfig]
  obtain ⟨f, t, run, none⟩ | ⟨name, s₁, g₁, run₁⟩ :=
    Session.Gains.fails_or_follows (field "name") _ s
  · exact .inl ⟨f, t, run, none⟩
  rw [run₁]
  obtain ⟨f, t, run, none⟩ | ⟨locations, s₂, g₂, run₂⟩ :=
    Session.Gains.fails_or_follows (field "locations") _ s₁
  · exact .inl ⟨f, t, run, g₁.trans none⟩
  rw [run₂]
  obtain ⟨f, t, run, none⟩ | ⟨args, s₃, g₃, run₃⟩ :=
    Session.Gains.fails_or_follows (field "args") _ s₂
  · exact .inl ⟨f, t, run, (g₁.trans g₂).trans none⟩
  rw [run₃]
  obtain ⟨f, t, run, none⟩ | ⟨description, s₄, g₄, run₄⟩ :=
    Session.Gains.fails_or_follows (field "description") _ s₃
  · exact .inl ⟨f, t, run, ((g₁.trans g₂).trans g₃).trans none⟩
  exact .inr ⟨name, locations, args, description, s₄, ((g₁.trans g₂).trans g₃).trans g₄, run₄⟩

/-- What the journal of a session tells of its directives, from now on. -/
structure Session.Chronicle (s : Session) : Prop where
  /-- The directives that a run builds are told of one by one, in their order. -/
  told (qs : List Request) : ∃ built,
    (s.runAll qs).2.directives.toList = s.directives.toList ++ built ∧
      List.Forall₂ Directive.ToldBy built (creations ((s.runAll qs).1.flatMap Reply.notices))
  /-- No other request builds a directive, unless a deferred type is called. -/
  quiet {q : Request} : q.constructs = false → s.Gains 0 (s.run q).2
  silent {q : Request} : q.constructs = false → (s.run q).2.calls = s.calls →
    creations (s.run q).1.notices = []
  built {name locations args description : Value} {r : Ref .directive} {t : Session} :
    Directives.create Deferred.supplier name locations args description s = .ok r t →
      Directives.Noted s name locations args description r t ∧ s.Gains 1 t
  unbuilt {name locations args description : Value} {f : Fault} {t : Session} :
    Directives.create Deferred.supplier name locations args description s = .error f t →
      s.Gains 0 t
  /-- A configuration is read, and then a directive is built. -/
  configured (v : Value) :
    (∃ f t, Access.fromConfig Deferred.supplier v s = .error f t ∧ s.Gains 0 t) ∨
      ∃ name locations args description u, s.Gains 0 u ∧
        Access.fromConfig Deferred.supplier v s =
          Directives.create Deferred.supplier name locations args description u
  stored (v : Value) : s.Copies v (v.copy Deferred.supplier .stored s)

/-- In every run the directives that are built are those that are noted, in their order. A
constructor that succeeds builds and notes one, a stored copy as many as its picture shows, and
nothing else does. -/
theorem directives_are_chronicled (s : Session) : s.Chronicle where
  told := Session.Records.runAll s
  quiet := Session.Gains.run s
  silent constructs uncalled := by
    obtain ⟨built, directives, told⟩ := Session.Records.run s _
    exact Session.Records.silent directives told (Session.Gains.run s constructs) uncalled
  built := Directives.create_noted
  unbuilt := Directives.create_gains_of_error
  configured v := Access.fromConfig_cases v s
  stored := s.copies_stored

/-- Directives that are built at once, from a record that is given twice, and not at all, and a list
of two of them that is copied. -/
def sampleCreations : List Request :=
  let directive (route : Route) (name : String) : Expression :=
    .directive route (some (.text name)) (some (.list [.location .field, .text "QUERY"])) none none
  [.declare "a" (directive .constructor "first"), .declare "b" (directive .config "second"),
    .value (directive .constructor "not a name"), .declare "l" (.list [.ref "a", .ref "b", .ref "a"]),
    .copy (.ref "l") .deep none, .copy (.ref "l") .shallow none, .toConfig (.ref "a") none,
    .copy (.ref "l") .stored none]

theorem sample_creations_are_chronicled :
    BuiltIn.session.Chronicle ∧
      creations ((BuiltIn.session.runAll sampleCreations).1.flatMap Reply.notices) =
        [.created "first" ["FIELD", "QUERY"], .created "second" ["FIELD", "QUERY"],
          .created "first" ["FIELD", "QUERY"], .created "second" ["FIELD", "QUERY"]] :=
  ⟨directives_are_chronicled BuiltIn.session, by decide +kernel⟩

/-- A directive that lies in the default of its own argument. -/
def enclosedDirective : List Request :=
  [.declare "L" (.list []),
    .declare "d" (.directive .constructor (some (.text "sample")) (some (.list [.text "FIELD"]))
      (some (.list [.argument (some (.text "bar")) (some (.ref "Int")) (some (.ref "L")) none]))
      none),
    .append (.ref "L") (.ref "d")]

/-- A picture shows one directive, but two are built and noted when it is restored. -/
theorem enclosed_directive_is_built_twice :
    let s := (BuiltIn.session.runAll enclosedDirective).2
    let taken := (Snapshot.takeWithin Deferred.supplier 9 (.directive ⟨2⟩) []).result? s
    let copied := s.run (.copy (.ref "d") .stored none)
    taken.map (fun q => q.2.countP Value.isDirective) = some 1 ∧
      ((Value.directive ⟨2⟩).copy Deferred.supplier .stored).fails s = false ∧
      copied.2.directives.size = s.directives.size + 2 ∧
      creations copied.1.notices =
        [.created "sample" ["FIELD"], .created "sample" ["FIELD"]] := by
  intro s taken copied
  decide +kernel

end DirectiveSchema

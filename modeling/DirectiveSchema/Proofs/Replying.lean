import DirectiveSchema.Proofs.Sustaining

/-!
Answers tally. What is shown of paired data is the same, but for the payloads of numbers that are
none, unless the first session meets nesting without an end somewhere. It may do so in a part of an
answer that it gives nevertheless, since the faults of some parts are shown in their places; then
the second session, which may show more, still shows it without a fault.
-/
namespace DirectiveSchema

open Pairing

variable {α β α' β' : Type} {φ ψ : Pairing} {s t : Session} {v w : Value}

/-! ### Answers that match -/

mutual

/-- Whether an answer tells of nesting without an end. -/
def Answer.isEndless : Answer → Bool
  | .list items | .tuple items | .set items => endlessItems items
  | .dict entries => endlessEntries entries
  | .argument name type description hasDefault default required =>
    name.isEndless || type.isEndless || description.isEndless || hasDefault.isEndless ||
      default.isEndless || required.isEndless
  | .directive name locations args description | .config name locations args description =>
    name.isEndless || locations.isEndless || args.isEndless || description.isEndless
  | .fields fs => endlessFields fs
  | .guarded o => o.isEndless
  | _ => false

def Outcome.isEndless : Outcome → Bool
  | .ok a => a.isEndless
  | .fault kind _ none _ => decide (kind = .recursion)
  | .fault kind _ (some name) _ => decide (kind = .recursion) || name.isEndless

def endlessItems : List Answer → Bool
  | [] => false
  | a :: as => a.isEndless || endlessItems as

def endlessEntries : List (Answer × Answer) → Bool
  | [] => false
  | (a, b) :: es => a.isEndless || b.isEndless || endlessEntries es

def endlessFields : List (String × Answer) → Bool
  | [] => false
  | (_, a) :: fs => a.isEndless || endlessFields fs

end

mutual

/-- An answer without the payloads of numbers that are none, which are not shown. -/
def Answer.bare : Answer → Answer
  | .float (.nan _) => .float (.nan 0)
  | .list items => .list (bareItems items)
  | .tuple items => .tuple (bareItems items)
  | .set items => .set (bareItems items)
  | .dict entries => .dict (bareEntries entries)
  | .argument name type description hasDefault default required =>
    .argument name.bare type.bare description.bare hasDefault.bare default.bare required.bare
  | .directive name locations args description =>
    .directive name.bare locations.bare args.bare description.bare
  | .config name locations args description =>
    .config name.bare locations.bare args.bare description.bare
  | .fields fs => .fields (bareFields fs)
  | .guarded o => .guarded o.bare
  | a => a

def Outcome.bare : Outcome → Outcome
  | .ok a => .ok a.bare
  | .fault kind message none cause => .fault kind message none cause
  | .fault kind message (some name) cause => .fault kind message (some name.bare) cause

def bareItems : List Answer → List Answer
  | [] => []
  | a :: as => a.bare :: bareItems as

def bareEntries : List (Answer × Answer) → List (Answer × Answer)
  | [] => []
  | (a, b) :: es => (a.bare, b.bare) :: bareEntries es

def bareFields : List (String × Answer) → List (String × Answer)
  | [] => []
  | (key, a) :: fs => (key, a.bare) :: bareFields fs

end

/-- The same is shown, unless the first answer tells of nesting without an end. -/
def Answer.Matches (a b : Answer) : Prop := a.isEndless = true ∨ b.bare = a.bare

def Outcome.Matches (o p : Outcome) : Prop := o.isEndless = true ∨ p.bare = o.bare

namespace Answer.Matches

variable {a a' b b' c c' d d' : Answer} {as bs : List Answer}

theorem refl (a : Answer) : a.Matches a := .inr rfl

theorem items (h : List.Forall₂ Matches as bs) :
    endlessItems as = true ∨ bareItems bs = bareItems as := by
  induction h with
  | nil => exact .inr rfl
  | cons first _ ih =>
    rcases first with endless | same
    · exact .inl (by rw [endlessItems, endless, Bool.true_or])
    · rcases ih with endless | rest
      · exact .inl (by rw [endlessItems, endless, Bool.or_true])
      · exact .inr (by rw [bareItems, bareItems, same, rest])

theorem entries {es fs : List (Answer × Answer)}
    (h : List.Forall₂ (fun e f => Matches e.1 f.1 ∧ Matches e.2 f.2) es fs) :
    (Answer.dict es).Matches (.dict fs) := by
  have all : endlessEntries es = true ∨ bareEntries fs = bareEntries es := by
    induction h with
    | nil => exact .inr rfl
    | cons first _ ih =>
      rcases first with ⟨endless | key, endless | value⟩ <;> rcases ih with endless' | rest <;>
        simp_all [endlessEntries, bareEntries]
  exact all.imp id (congrArg Answer.dict)

theorem list (h : List.Forall₂ Matches as bs) : (Answer.list as).Matches (.list bs) :=
  (items h).imp id (congrArg Answer.list)

theorem tuple (h : List.Forall₂ Matches as bs) : (Answer.tuple as).Matches (.tuple bs) :=
  (items h).imp id (congrArg Answer.tuple)

theorem set (h : List.Forall₂ Matches as bs) : (Answer.set as).Matches (.set bs) :=
  (items h).imp id (congrArg Answer.set)

theorem directive (h₁ : a.Matches a') (h₂ : b.Matches b') (h₃ : c.Matches c')
    (h₄ : d.Matches d') : (Answer.directive a b c d).Matches (.directive a' b' c' d') := by
  simp only [Matches, isEndless, bare, Bool.or_eq_true, directive.injEq] at *
  tauto

theorem config (h₁ : a.Matches a') (h₂ : b.Matches b') (h₃ : c.Matches c') (h₄ : d.Matches d') :
    (Answer.config a b c d).Matches (.config a' b' c' d') := by
  simp only [Matches, isEndless, bare, Bool.or_eq_true, config.injEq] at *
  tauto

theorem argument {o o' p p' q q' : Outcome} (h₁ : a.Matches a') (h₂ : o.Matches o')
    (h₃ : b.Matches b') (h₄ : c.Matches c') (h₅ : p.Matches p') (h₆ : q.Matches q') :
    (Answer.argument a o b c p q).Matches (.argument a' o' b' c' p' q') := by
  simp only [Matches, Outcome.Matches, isEndless, bare, Bool.or_eq_true, argument.injEq] at *
  tauto

end Answer.Matches

/-! ### Parts of answers -/

/-- Actions of which the second one may always go on alone, and which tally wherever the second
session is ahead and coherent. What is said of their results does not depend on a pairing. -/
structure Replies (φ : Pairing) (x : Action α) (y : Action β) (post : α → β → Prop) : Prop where
  evolves : Keeps Evolves y
  sustains : Keeps (Sustains []) y
  tally {ψ : Pairing} {s t : Session} : φ ≤ ψ → Abreast ψ s t → t.Coherent →
    Tally True ψ x y (fun _ => post) s t

namespace Replies

variable {mid post : α → β → Prop} {next : α' → β' → Prop} {x : Action α} {y : Action β}
  {f : α → Action α'} {g : β → Action β'}

theorem mono (h : Replies φ x y post) (le : φ ≤ ψ) : Replies ψ x y post :=
  ⟨h.evolves, h.sustains, fun le' => h.tally (le_trans le le')⟩

theorem pure {a : α} {b : β} (matched : post a b) : Replies φ (pure a) (pure b) post :=
  ⟨Evolves.lasting.pure b, Sustains.lasting.pure b,
    fun _ abreast _ => .ok rfl rfl (le_refl _) abreast matched⟩

/-- What has no room for any nesting. -/
theorem noRoom {e : Fault} (endless : e.kind = .recursion) (evolves : Keeps Evolves y)
    (sustains : Keeps (Sustains []) y) : Replies φ (throw e : Action α) y post :=
  ⟨evolves, sustains, fun _ abreast _ => Tallies.noRoom endless (fun _ => evolves) _ _ abreast⟩

/-- What is shown does not depend on what was shown before, but for what is said of all of it. -/
theorem bind [Inhabited α] (first : Replies φ x y mid)
    (rest : ∀ a b, Replies φ (f a) (g b) fun c d => mid a b → next c d) :
    Replies φ (x >>= f) (y >>= g) next where
  evolves := Evolves.lasting.bind first.evolves fun b => (rest default b).evolves
  sustains := Sustains.lasting.bind first.sustains fun b => (rest default b).sustains
  tally le abreast coherent :=
    (first.tally le abreast coherent).bindKept abreast (fun _ b => (rest default b).evolves)
      fun {_ a b _ _} le' run abreast' matched =>
        have coherent' := (first.sustains.of_ok run coherent .nil).1
        ((rest a b).tally (le_trans le le') abreast' coherent').weaken
          fun _ goesOn => goesOn matched

theorem bindThrough [Inhabited α'] {α'' β'' : Type} {post : α'' → β'' → Prop}
    {k : α' → Action α''} {l : β' → Action β''} (first : Replies φ (x >>= f) (y >>= g) next)
    (rest : ∀ a b, Replies φ (k a) (l b) fun c d => next a b → post c d) :
    Replies φ (x >>= fun a => f a >>= k) (y >>= fun b => g b >>= l) post := by
  rw [← bind_assoc, ← bind_assoc]
  exact first.bind rest

theorem map {f : α → α'} {g : β → β'} (first : Replies φ x y mid)
    (rest : ∀ {a b}, mid a b → next (f a) (g b)) :
    Replies φ (do return f (← x)) (do return g (← y)) next where
  evolves := Evolves.lasting.bind first.evolves fun _ => Evolves.lasting.pure _
  sustains := Sustains.lasting.bind first.sustains fun _ => Sustains.lasting.pure _
  tally le abreast coherent :=
    (first.tally le abreast coherent).bindKept abreast (fun _ _ => Evolves.lasting.pure _)
      fun _ _ abreast' matched => .ok rfl rfl (le_refl _) abreast' (rest matched)

/-- What is read of the sessions. -/
theorem read {f : Session → Action α} {g : Session → Action β}
    (evolves : Keeps Evolves (MonadState.get >>= g))
    (sustains : Keeps (Sustains []) (MonadState.get >>= g))
    (rest : ∀ {ψ s t}, φ ≤ ψ → Abreast ψ s t → Replies ψ (f s) (g t) post) :
    Replies φ (MonadState.get >>= f) (MonadState.get >>= g) post where
  evolves := evolves
  sustains := sustains
  tally le abreast coherent :=
    ((rest le abreast).tally (le_refl _) abreast coherent).later rfl rfl (le_refl _) (le_refl _)

/-- Whatever tallies may be shown. -/
theorem shown {R : Pairing → α → β → Prop}
    (evolves : Keeps Evolves y) (sustains : Keeps (Sustains []) y)
    (first : ∀ {ψ}, φ ≤ ψ → Tallies True ψ x y R)
    (evolves' : ∀ b, Keeps Evolves (g b)) (sustains' : ∀ b, Keeps (Sustains []) (g b))
    (rest : ∀ {ψ a b}, φ ≤ ψ → R ψ a b → Replies ψ (f a) (g b) next) :
    Replies φ (x >>= f) (y >>= g) next where
  evolves := Evolves.lasting.bind evolves evolves'
  sustains := Sustains.lasting.bind sustains sustains'
  tally {_ s t} le abreast coherent :=
    (first le s t abreast).bindKept abreast (fun _ => evolves') fun le' run abreast' related =>
      (rest (le_trans le le') related).tally (le_refl _) abreast'
        (sustains.of_ok run coherent .nil).1

theorem mapM {as : List α} {bs : List β}
    (each : List.Forall₂ (fun a b => Replies φ (f a) (g b) next) as bs) [Inhabited α'] :
    Replies φ (as.mapM f) (bs.mapM g) (List.Forall₂ next) := by
  induction each with
  | nil => exact pure .nil
  | cons first _ ih =>
    rw [List.mapM_cons, List.mapM_cons]
    exact first.bind fun _ _ => ih.bind fun _ _ => pure fun rest first => .cons first rest

end Replies

/-! ### Faults that are shown -/

/-- Nesting without an end has no name to be offended by. -/
theorem Fault.offendingName?_of_recursion {e : Fault} (endless : e.kind = .recursion) :
    e.offendingName? = none := by
  cases e with
  | raised kind message =>
    cases endless
    rfl
  | invalidName => cases endless
  | _ => rfl

namespace Outcome.Matches

theorem ok {a b : Answer} (h : a.Matches b) : (Outcome.ok a).Matches (.ok b) :=
  h.imp id (congrArg Outcome.ok)

theorem fault {kind : FaultKind} {message : String} {cause : Option FaultKind} {a b : Answer}
    (h : a.Matches b) : (Outcome.fault kind message (some a) cause).Matches
      (.fault kind message (some b) cause) := by
  rcases h with endless | same
  · exact .inl (by rw [Outcome.isEndless, endless, Bool.or_true])
  · exact .inr (by rw [Outcome.bare, Outcome.bare, same])

end Outcome.Matches

/-- Ways to show data that answer alike. -/
structure ShowsAlike (shown shown' : Value → Action Answer) : Prop where
  evolves (w : Value) : Keeps Evolves (shown' w)
  sustains (w : Value) : Keeps (Sustains []) (shown' w)
  replies {φ : Pairing} {v w : Value} :
    φ.Relates v w → Replies φ (shown v) (shown' w) Answer.Matches

section

variable {shown : Value → Action Answer} {e : Fault}

theorem Answer.ofFault_of_none (nameless : e.offendingName? = none) :
    ofFault shown e = pure (.fault e.kind e.message none (e.cause?.map Fault.kind)) := by
  simp only [ofFault, nameless]

/-- A fault that holds no datum is shown without another one. -/
theorem Answer.ofFault_of_isPlain (plain : e.IsPlain)
    (null : ∀ t, ∃ a, shown .null t = .ok a t) (t : Session) :
    ∃ o, ofFault shown e t = .ok o t := by
  rcases plain with nameless | nameless
  · exact ⟨_, by rw [ofFault_of_none nameless]; rfl⟩
  · obtain ⟨a, run⟩ := null t
    simp only [ofFault, nameless]
    exact ⟨_, Action.bind_of_ok run⟩

end

namespace ShowsAlike

variable {shown shown' : Value → Action Answer} (h : ShowsAlike shown shown')

include h

theorem all {vs ws : List Value} (related : φ.RelatesAll vs ws) :
    Replies φ (vs.mapM shown) (ws.mapM shown') (List.Forall₂ Answer.Matches) :=
  .mapM (related.imp fun _ _ related => h.replies related)

/-- A datum that is obtained alike and then shown. -/
theorem part {x y : Action Value} (evolves : Keeps Evolves y) (sustains : Keeps (Sustains []) y)
    (first : ∀ {ψ}, φ ≤ ψ → Tallies True ψ x y Relates) :
    Replies φ (x >>= shown) (y >>= shown') Answer.Matches :=
  .shown evolves sustains first h.evolves h.sustains fun _ related => h.replies related

theorem fault {e f : Fault} (related : φ.RelatesFaults e f) :
    Replies φ (Answer.ofFault shown e) (Answer.ofFault shown' f) Outcome.Matches := by
  have names := related.name
  simp only [Answer.ofFault, related.kind, related.message, related.cause]
  generalize e.offendingName? = v at names ⊢
  generalize f.offendingName? = w at names ⊢
  cases names with
  | none => exact .pure (.inr rfl)
  | some related => exact (h.replies related).map .fault

/-- A part of an answer whose fault is shown in its place. If the first session meets nesting
without an end in it, the second one shows a result or a fault that holds no datum. -/
theorem guarded (null : ∀ t, ∃ a, shown' .null t = .ok a t) {act act' : Action Answer}
    (acts : Replies φ act act' Answer.Matches)
    (plain : ∀ {ψ s t f t'}, φ ≤ ψ → Abreast ψ s t → t.Coherent → act' t = .error f t' →
      f.IsPlain) :
    Replies φ (Answer.guardWith shown act) (Answer.guardWith shown' act') Outcome.Matches where
  evolves := Evolves.observed.guardWith h.evolves acts.evolves
  sustains := Sustains.checked.guardWith h.sustains acts.sustains
  tally {ψ s t} le abreast coherent := by
    cases acts.tally le abreast coherent with
    | ok run run' le' abreast' matched =>
      exact .ok (Action.tryCatch_of_ok (Action.bind_of_ok run))
        (Action.tryCatch_of_ok (Action.bind_of_ok run')) le' abreast' (.ok matched)
    | error run run' le' abreast' related =>
      refine ((h.fault related).tally (le_refl _) abreast' ?_).later
        (Action.tryCatch_of_error (Action.bind_of_error run))
        (Action.tryCatch_of_error (Action.bind_of_error run')) le'
        (abreast.identity_le le' abreast')
      exact (acts.sustains.of_error run' coherent .nil).1
    | @endless e s' run endless _ _ goesOn =>
      obtain ⟨χ, le', abreast'⟩ := goesOn trivial
      have caught : Answer.guardWith shown act s =
          .ok (.fault e.kind e.message none (e.cause?.map Fault.kind)) s' := by
        refine (Action.tryCatch_of_error (Action.bind_of_error run)).trans ?_
        rw [Answer.ofFault_of_none (Fault.offendingName?_of_recursion endless)]
        rfl
      have told (cause : Option FaultKind) :
          (Outcome.fault e.kind e.message none cause).isEndless = true := by
        rw [Outcome.isEndless, endless]
        rfl
      cases run' : act' t with
      | ok b t' =>
        rw [Action.after_of_ok run'] at abreast'
        exact .ok caught (Action.tryCatch_of_ok (Action.bind_of_ok run')) le' abreast'
          (.inl (told _))
      | error f t' =>
        rw [Action.after_of_error run'] at abreast'
        obtain ⟨o, shows⟩ := Answer.ofFault_of_isPlain (plain le abreast coherent run') null t'
        exact .ok caught ((Action.tryCatch_of_error (Action.bind_of_error run')).trans shows) le'
          abreast' (.inl (told _))

/-! ### Data that are shown -/

section

variable {r r' : Ref .argument} (paired : φ (some .argument) r.index r'.index)

include paired

theorem type : Replies φ (do shown (← Arguments.type Deferred.supplier r))
    (do shown' (← Arguments.type Deferred.supplier r')) Answer.Matches :=
  h.part (Evolves.observed.type [] r') (Sustains.checked.type [] r') fun le =>
    .type (le _ _ _ paired)

theorem default : Replies φ (do shown (← Arguments.default r))
    (do shown' (← Arguments.default r')) Answer.Matches :=
  h.part (Evolves.observed.argumentDefault r') (Sustains.checked.argumentDefault r') fun le =>
    .argumentDefault (le _ _ _ paired)

omit h in
theorem required : Replies φ (do return Answer.bool (← Arguments.required Deferred.supplier r))
    (do return Answer.bool (← Arguments.required Deferred.supplier r')) Answer.Matches := by
  have flag : Replies φ (Arguments.required Deferred.supplier r)
      (Arguments.required Deferred.supplier r') fun a b => b = a :=
    ⟨Evolves.observed.required r', Sustains.checked.required r',
      fun le abreast _ => Tallies.argumentRequired (le _ _ _ paired) _ _ abreast⟩
  exact flag.map fun same => same ▸ .refl _

end

end ShowsAlike

/-- The faults of parts that tally with themselves hold no datum. -/
theorem Replies.isPlain {x : Action α} {post : α → α → Prop} {f : Fault} {t' : Session}
    (h : Replies t.identity x x post) (coherent : t.Coherent) (failed : x t = .error f t') :
    f.IsPlain := by
  cases h.tally (le_refl _) coherent.abreast coherent with
  | ok run => cases failed.symm.trans run
  | error run _ _ _ _ plain =>
    cases failed.symm.trans run
    exact plain trivial
  | endless run endless =>
    cases failed.symm.trans run
    exact .inl (Fault.offendingName?_of_recursion endless)

namespace ShowsAlike

variable {n m : Nat} {v w : Value}

/-- The second way to show an argument has room for its name, or neither has. -/
theorem argument {r r' : Ref .argument} (paired : φ (some .argument) r.index r'.index)
    (h : ShowsAlike (Answer.ofWithin Deferred.supplier n) (Answer.ofWithin Deferred.supplier m))
    (own : ShowsAlike (Answer.ofWithin Deferred.supplier m) (Answer.ofWithin Deferred.supplier m))
    (le : n ≤ m) :
    Replies φ (Answer.ofWithin Deferred.supplier (n + 1) (.argument r))
      (Answer.ofWithin Deferred.supplier (m + 1) (.argument r')) Answer.Matches := by
  have name := h.part (Evolves.observed.argumentName r') (Sustains.checked.argumentName r')
    fun le => Tallies.argumentName (le _ _ _ paired)
  cases m with
  | zero =>
    obtain rfl := Nat.le_zero.1 le
    exact name
  | succ m =>
    have null (t : Session) : ∃ a, Answer.ofWithin Deferred.supplier (m + 1) .null t = .ok a t :=
      ⟨_, rfl⟩
    have live {ψ : Pairing} {s t : Session} (le : φ ≤ ψ) (abreast : Abreast ψ s t) :
        t.identity (some .argument) r'.index r'.index := abreast.other _ _ _ (le _ _ _ paired)
    refine name.bindThrough fun _ _ => ?_
    refine (h.guarded null (h.type paired) fun le abreast coherent failed =>
      (own.type (live le abreast)).isPlain coherent failed).bind fun _ _ => ?_
    refine (h.part (Evolves.observed.argumentDescription r')
      (Sustains.checked.argumentDescription r') fun le =>
        .argumentDescription (le _ _ _ paired)).bindThrough fun _ _ => ?_
    refine (h.part (Evolves.observed.argumentHasDefault r')
      (Sustains.checked.argumentHasDefault r') fun le =>
        .argumentHasDefault (le _ _ _ paired)).bindThrough fun _ _ => ?_
    refine (h.guarded null (h.default paired) fun le abreast coherent failed =>
      (own.default (live le abreast)).isPlain coherent failed).bind fun _ _ => ?_
    refine (h.guarded null (required paired) fun le abreast coherent failed =>
      (required (live le abreast)).isPlain coherent failed).bind fun _ _ => ?_
    exact .pure fun h₆ h₅ h₄ h₃ h₂ h₁ => .argument h₁ h₂ h₃ h₄ h₅ h₆

/-- A session that is ahead shows a datum with the larger bound. The induction is on that bound: how
its faults come out is known from the second session alone. -/
theorem within (n m : Nat) (le : n ≤ m) :
    ShowsAlike (Answer.ofWithin Deferred.supplier n) (Answer.ofWithin Deferred.supplier m) := by
  have evolves := Evolves.observed.toChecked
  have sustains : Checked Deferred.supplier.answer (Sustains []) := Sustains.checked
  induction m generalizing n with
  | zero =>
    obtain rfl := Nat.le_zero.1 le
    refine ⟨evolves.answerWithin 0, sustains.answerWithin 0, fun _ => ?_⟩
    exact .noRoom rfl (evolves.throw _) (sustains.throw _)
  | succ m ih =>
    refine ⟨evolves.answerWithin _, sustains.answerWithin _, fun {φ v w} related => ?_⟩
    cases n with
    | zero => exact .noRoom rfl (evolves.answerWithin _ _) (sustains.answerWithin _ _)
    | succ n =>
      have le := Nat.le_of_succ_le_succ le
      have h := ih n le
      have literal : Replies φ (Display.literal Deferred.supplier v)
          (Display.literal Deferred.supplier w) fun a b => b = a :=
        ⟨evolves.literal [] _, sustains.literal [] _,
          fun le abreast _ => Tallies.literal .nil (related.mono le) _ _ abreast⟩
      have wholeEvolves := evolves.answerWithin (m + 1) w
      have wholeSustains := sustains.answerWithin (m + 1) w
      cases related with
      | null | unnamed | bool | int | text | bytes | location | foreign | deferred | float =>
        exact .pure (.refl _)
      | nan => exact .pure (.inr rfl)
      | tuple tag same parts =>
        exact (h.all (Relates.tuple_iff.1 (.tuple tag same parts)).2).map .tuple
      | config _ name locations args description =>
        exact (h.replies name).bind fun _ _ => (h.replies locations).bind fun _ _ =>
          (h.replies args).bind fun _ _ => (h.replies description).map
            fun h₄ h₃ h₂ h₁ => .config h₁ h₂ h₃ h₄
      | list paired =>
        exact .read wholeEvolves wholeSustains fun le abreast =>
          (h.all (abreast.list (le _ _ _ paired))).map .list
      | set paired =>
        refine .read wholeEvolves wholeSustains fun {ψ _ _} le abreast => Replies.map
          (Replies.mapM ((abreast.set (le _ _ _ paired)).imp fun _ _ member => ?_)) .set
        exact h.replies member.value
      | dict paired =>
        refine .read wholeEvolves wholeSustains fun {ψ _ _} le abreast => Replies.map
          (Replies.mapM ((abreast.dict (le _ _ _ paired)).imp fun _ _ entry => ?_)) .entries
        exact (h.replies entry.key).bind fun _ _ => (h.replies entry.value).map
          fun value key => ⟨key, value⟩
      | named | scalar | wrapper => exact literal.map fun same => same ▸ .refl _
      | argument paired => exact argument paired h (ih m (Nat.le_refl m)) le
      | directive paired =>
        refine .read wholeEvolves wholeSustains fun {ψ _ _} le abreast => ?_
        have related := abreast.directive (le _ _ _ paired)
        exact (h.replies related.name).bind fun _ _ => (h.replies related.locations).bind fun _ _ =>
          (h.replies related.args).bind fun _ _ => (h.replies related.description).map
            fun h₄ h₃ h₂ h₁ => .directive h₁ h₂ h₃ h₄

/-- Answers are shown alike. -/
theorem answer : ShowsAlike (Answer.of Deferred.supplier) (Answer.of Deferred.supplier) where
  evolves := Evolves.observed.answer
  sustains := Sustains.checked.answer
  replies {φ v w} related := by
    refine .read (Evolves.observed.answer w) (Sustains.checked.answer w)
      fun {ψ s t} le abreast => ?_
    obtain ⟨_, ahead⟩ := abreast
    have := ahead.reach_le
    refine ((within _ _ ?_).replies related).mono le
    rw [related.depth_eq]
    omega

end ShowsAlike

end DirectiveSchema

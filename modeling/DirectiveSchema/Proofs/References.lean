import DirectiveSchema.Proofs.Definite
import DirectiveSchema.Proofs.Resolution

/-!
Types that are referred to by name. What a deferred type answers is known before it is called when
it refers to a type that is bound to a name: wherever it is called, it answers that type. Data whose
types are known, or referred to in this way, can be outlined without any call; when they are
finitely nested and their elements and keys hash apart, they are proper.
-/
namespace DirectiveSchema

variable {answer : List Value → Deferred → Action Value} {s s' u : Session} {t v x : Value}
  {l : Layer Value} {n : Nat}

/-- The type that a source stands for, if it does not take a call to tell: the datum itself, or the
type that is bound to the name that a deferred type refers to. -/
def Session.target? (s : Session) : Value → Option Value
  | .deferred d =>
    match d.body with
    | .ref name => (s.binding? name).filter Value.isType
    | _ => none
  | v => some v

namespace Session

theorem target?_of_known {source : Value} (h : source.known? = some t) :
    s.target? source = some t := by
  cases source <;> cases h <;> rfl

theorem target?_deferred {d : Deferred} (h : s.target? (.deferred d) = some t) :
    ∃ name, d.body = .ref name ∧ s.binding? name = some t ∧ t.isType = true := by
  rw [target?] at h
  split at h
  · next name body =>
    obtain ⟨bound, type⟩ := Option.filter_eq_some_iff.1 h
    exact ⟨name, body, bound, type⟩
  · cases h

/-- A call of a reference is counted, and answers the type that it stands for. -/
theorem evaluate_of_target? {d : Deferred} (h : s.target? (.deferred d) = some t)
    (supply : Supplier) :
    d.evaluate supply s = .ok t { s with calls := d.counter :: s.calls } := by
  obtain ⟨name, body, bound, -⟩ := target?_deferred h
  have evaluated : d.body.eval supply = Expression.lookup name := by
    rw [body, TypeExpression.eval]
  have counted : { s with calls := d.counter :: s.calls }.binding? name = some t := bound
  show d.body.eval _ _ = _
  rw [evaluated, Expression.lookup, Action.get_bind, counted]
  rfl

theorem mayResolve_of_target? {source : Value} (h : s.target? source = some t) :
    MayResolve source t := by
  cases source with
  | deferred d => exact .inr ⟨d, rfl⟩
  | _ =>
    cases h
    exact .inl rfl

theorem Extends.target? (h : s.Extends u) (source : Value) :
    u.target? source = s.target? source := by
  cases source with
  | deferred d => simp only [Session.target?, binding?, h.bindings]
  | _ => rfl

/-! ### Sessions that follow references -/

/-- A session is extended, and a type that was referred to by name is resolved to the type that is
bound to the name. -/
structure Follows (s s' : Session) : Prop where
  extension : s.Extends s'
  wrapper {r : Ref .wrapper} {source : Value} : r.index < s.wrappers.size →
    (s.wrapper r).source = some source → ∀ {t u}, s.target? source = some t →
      (s'.wrapper r).resolved = some u → (s.wrapper r).resolved = some u ∨ u = t
  argument {q : Ref .argument} : q.index < s.arguments.size →
    ∀ {t u}, s.target? (s.argument q).source = some t →
      (s'.argument q).resolved = some u → (s.argument q).resolved = some u ∨ u = t

namespace Follows

theorem lasting : Lasting Follows where
  refl s := ⟨.refl s, fun _ _ _ _ _ => .inl, fun _ _ _ _ => .inl⟩
  trans {a b c} h h' := by
    refine ⟨h.extension.trans h'.extension, fun live based t u target resolved => ?_,
      fun {q} live t u target resolved => ?_⟩
    · have live' := Nat.lt_of_lt_of_le live h.extension.wrappers.size
      have based' := (h.extension.wrapper live).source.trans based
      rcases h'.wrapper live' based' (h.extension.target? _ ▸ target) resolved with before | rfl
      · exact h.wrapper live based target before
      · exact .inr rfl
    · have live' := Nat.lt_of_lt_of_le live h.extension.arguments.size
      have source := (h.extension.argument live).source
      have target' : b.target? (b.argument q).source = some t := by
        rw [h.extension.target?, source, target]
      rcases h'.argument live' target' resolved with before | rfl
      · exact h.argument live target before
      · exact .inr rfl

/-- A session that leaves types as they are resolves none. -/
theorem of_leaves (extension : s.Extends s') (leaves : s.LeavesTypes s') : s.Follows s' where
  extension := extension
  wrapper live _ _ _ _ resolved :=
    .inl ((congrArg WrappingType.resolved (leaves.wrappers.cell live)).trans resolved)
  argument live _ _ _ resolved :=
    .inl ((congrArg Argument.resolved (leaves.arguments.cell live)).trans resolved)

theorem note (n : Notice) : Keeps Follows (Action.note n) := fun s =>
  of_leaves (Extends.growth.note n s) { LeavesTypes.refl s with }

theorem addition : Addition Follows := LeavesTypes.enlarges lasting of_leaves

theorem putWrapper (h : s.Follows s') {r : Ref .wrapper} {source : Value}
    (unresolved : (s.wrapper r).resolved = none) (based : (s.wrapper r).source = some source)
    (may : MayResolve source t) (aimed : ∀ t', s.target? source = some t' → t = t') :
    s.Follows (s'.putWrapper r { s'.wrapper r with resolved := Types.kept t }) where
  extension := h.extension.putWrapper unresolved based may
  wrapper {r'} source' live based' t' u target resolved := by
    by_cases same : r.index = r'.index
    · obtain rfl : r = r' := Value.eq_iff_index.2 same
      have cell := Arena.get_put_self s'.wrappers
        { s'.wrapper r with resolved := Types.kept t }
        (Nat.lt_of_lt_of_le live h.extension.wrappers.size)
      rw [show (s'.putWrapper r _).wrapper r = _ from cell] at resolved
      cases based.symm.trans based'
      exact .inr ((Types.eq_of_kept resolved).symm.trans (aimed t' target))
    · have cell := Arena.get_put_of_ne s'.wrappers
        { s'.wrapper r with resolved := Types.kept t } same
      rw [show (s'.putWrapper r _).wrapper r' = _ from cell] at resolved
      exact h.wrapper live based' target resolved
  argument := h.argument

theorem putArgument (h : s.Follows s') {q : Ref .argument}
    (unresolved : (s.argument q).resolved = none) (may : MayResolve (s.argument q).source t)
    (aimed : ∀ t', s.target? (s.argument q).source = some t' → t = t') :
    s.Follows (s'.putArgument q { s'.argument q with resolved := Types.kept t }) where
  extension := h.extension.putArgument unresolved may
  wrapper := h.wrapper
  argument {q'} live t' u target resolved := by
    by_cases same : q.index = q'.index
    · obtain rfl : q = q' := Value.eq_iff_index.2 same
      have cell := Arena.get_put_self s'.arguments
        { s'.argument q with resolved := Types.kept t }
        (Nat.lt_of_lt_of_le live h.extension.arguments.size)
      rw [show (s'.putArgument q _).argument q = _ from cell] at resolved
      exact .inr ((Types.eq_of_kept resolved).symm.trans (aimed t' target))
    · have cell := Arena.get_put_of_ne s'.arguments
        { s'.argument q with resolved := Types.kept t } same
      rw [show (s'.putArgument q _).argument q' = _ from cell] at resolved
      exact h.argument live target resolved

end Follows

end Session

/-- Answers that follow references, and that answer a reference with the type that it stands for. -/
structure Truthful (answer : List Value → Deferred → Action Value) : Prop where
  keeps (ws : List Value) (d : Deferred) : Keeps Session.Follows (answer ws d)
  aimed {ws : List Value} {d : Deferred} {s s' : Session} {t u : Value} :
    s.target? (.deferred d) = some t → answer ws d s = .ok u s' → u = t

namespace Truthful

theorem demand (h : Truthful answer) {ws : List Value} {source u : Value}
    (target : s.target? source = some t) (run : Types.demand ⟨ws, answer⟩ source s = .ok u s') :
    u = t := by
  cases source with
  | deferred d => exact h.aimed target run
  | _ =>
    cases target
    cases run
    rfl

theorem observed (h : Truthful answer) : Observed answer Session.Follows where
  toLasting := Session.Follows.lasting
  wrapped _ w r := Session.Follows.lasting.wrappedBy
    (fun kept unresolved based answered => kept.putWrapper unresolved based
      (mayResolve_of_demand answered) fun _ target => h.demand target answered) h.keeps w r
  type _ q := Session.Follows.lasting.typeBy
    (fun kept unresolved answered => kept.putArgument unresolved
      (mayResolve_of_demand answered) fun _ target => h.demand target answered) h.keeps q
  note := Session.Follows.note

theorem evaluate (h : Truthful answer) (ws : List Value) (d : Deferred) :
    Keeps Session.Follows (d.evaluate ⟨ws, answer⟩) :=
  Session.Follows.addition.evaluate ws d fun _ => h.observed.toObserving

/-- The induction is on the calls inside: a call evaluates a body whose types are resolved by
answers with fewer calls inside. -/
theorem callWithin (n : Nat) : Truthful (Deferred.callWithin n) := by
  induction n with
  | zero =>
    have silent : Truthful fun _ _ => throw .endless :=
      ⟨fun _ _ => Session.Follows.lasting.throw _, fun _ run => nomatch run⟩
    refine ⟨fun ws d => ?_, fun target run => ?_⟩
    · unfold Deferred.callWithin
      split
      · exact silent.evaluate ws d
      · exact Session.Follows.lasting.throw _
    · unfold Deferred.callWithin at run
      split at run
      · rw [Session.evaluate_of_target? target] at run
        cases run
        rfl
      · cases run
  | succ n ih =>
    refine ⟨fun ws d => ?_, fun target run => ?_⟩
    · exact ih.evaluate ws d
    · rw [Deferred.callWithin, Session.evaluate_of_target? target] at run
      cases run
      rfl

theorem supplier : Truthful Deferred.supplier.answer where
  keeps ws d := Session.Follows.lasting.bounded fun n => (callWithin n).keeps ws d
  aimed target run := (callWithin _).aimed target run

end Truthful

/-! ### Outlines -/

/-- A wrapping type with the type filled in that it can be told to wrap. -/
def WrappingType.filled (s : Session) (c : WrappingType) : WrappingType :=
  { c with resolved := c.resolved.or (c.source.bind s.target?) }

def Argument.filled (s : Session) (c : Argument) : Argument :=
  { c with resolved := c.resolved.or (s.target? c.source) }

def Body.filled (s : Session) : Body → Body
  | .wrapper w c => .wrapper w (c.filled s)
  | .argument c => .argument (c.filled s)
  | b => b

theorem WrappingType.settles_filled (s : Session) (c : WrappingType) : c.Settles (c.filled s) where
  source := rfl
  extra := rfl
  resolved known := Option.or_eq_some_iff.2 (.inl known)
  honest filled := by
    rcases Option.or_eq_some_iff.1 filled with known | ⟨-, told⟩
    · exact .inl known
    · obtain ⟨source, based, target⟩ := Option.bind_eq_some_iff.1 told
      exact .inr ⟨source, based, Session.mayResolve_of_target? target⟩

theorem Argument.settles_filled (s : Session) (c : Argument) : c.Settles (c.filled s) where
  name := rfl
  description := rfl
  hasDefault := rfl
  default := rfl
  source := rfl
  extra := rfl
  resolved known := Option.or_eq_some_iff.2 (.inl known)
  honest filled := by
    rcases Option.or_eq_some_iff.1 filled with known | ⟨-, target⟩
    · exact .inl known
    · exact .inr (Session.mayResolve_of_target? target)

theorem Body.settles_filled (s : Session) (b : Body) : b.Settles (b.filled s) := by
  cases b with
  | wrapper w c => exact ⟨_, rfl, c.settles_filled s⟩
  | argument c => exact ⟨_, rfl, c.settles_filled s⟩
  | _ => exact rfl

namespace Session

/-- The surface of a datum as far as it can be told without a call. -/
def outline? (s : Session) (v : Value) : Option (Layer Value) :=
  (s.body? v).bind fun b => (b.filled s).layer?

def outline (s : Session) (v : Value) : Layer Value := (s.outline? v).getD (.atom v.face)

theorem outline_of_some (h : s.outline? v = some l) : s.outline v = l := by rw [outline, h]; rfl

/-- A surface that is known is the outline. -/
theorem outline?_of_layer? (known : s.layer? v = some l) : s.outline? v = some l := by
  obtain ⟨b, body, seen⟩ := Option.bind_eq_some_iff.1 known
  exact Option.bind_eq_some_iff.2 ⟨b, body, (b.settles_filled s).layer? seen⟩

namespace Follows

/-- A type that was told beforehand is the one that is told later. -/
theorem filled_wrapper (h : s.Follows u) {r : Ref .wrapper} (live : r.index < s.wrappers.size) :
    ((s.wrapper r).filled s).Settles ((u.wrapper r).filled u) := by
  have settles := h.extension.wrapper live
  refine ⟨settles.source, settles.extra, fun {t} filled => ?_, fun {t} filled => ?_⟩
  · rcases Option.or_eq_some_iff.1 filled with known | ⟨unresolved, told⟩
    · exact Option.or_eq_some_iff.2 (.inl (settles.resolved known))
    obtain ⟨source, based, target⟩ := Option.bind_eq_some_iff.1 told
    cases now : (u.wrapper r).resolved with
    | none =>
      rw [WrappingType.filled, now, Option.none_or, settles.source, based, Option.bind_some,
        h.extension.target?, target]
    | some t' =>
      rcases h.wrapper live based target now with before | rfl
      · rw [unresolved] at before
        cases before
      · exact Option.or_eq_some_iff.2 (.inl now)
  · rcases Option.or_eq_some_iff.1 filled with known | ⟨-, told⟩
    · exact (settles.honest known).imp_left fun before => Option.or_eq_some_iff.2 (.inl before)
    · obtain ⟨source, based, target⟩ := Option.bind_eq_some_iff.1 told
      exact .inr ⟨source, settles.source.symm.trans based, mayResolve_of_target? target⟩

theorem filled_argument (h : s.Follows u) {q : Ref .argument} (live : q.index < s.arguments.size) :
    ((s.argument q).filled s).Settles ((u.argument q).filled u) := by
  have settles := h.extension.argument live
  refine { settles with resolved := fun {t} filled => ?_, honest := fun {t} filled => ?_ }
  · rcases Option.or_eq_some_iff.1 filled with known | ⟨unresolved, target⟩
    · exact Option.or_eq_some_iff.2 (.inl (settles.resolved known))
    cases now : (u.argument q).resolved with
    | none =>
      rw [Argument.filled, now, Option.none_or, settles.source, h.extension.target?, target]
    | some t' =>
      rcases h.argument live target now with before | rfl
      · rw [unresolved] at before
        cases before
      · exact Option.or_eq_some_iff.2 (.inl now)
  · rcases Option.or_eq_some_iff.1 filled with known | ⟨-, target⟩
    · exact (settles.honest known).imp_left fun before => Option.or_eq_some_iff.2 (.inl before)
    · exact .inr (settles.source ▸ mayResolve_of_target? target)

theorem filled {b : Body} (h : s.Follows u) (body : s.body? v = some b) :
    ∃ b', u.body? v = some b' ∧ (b.filled s).Settles (b'.filled u) := by
  obtain ⟨b', body', settles⟩ := h.extension.body? body
  refine ⟨b', body', ?_⟩
  have made := makes_of_body body
  cases b with
  | wrapper w c =>
    obtain ⟨r, rfl, live, rfl⟩ := made
    obtain ⟨c', rfl, -⟩ := settles
    obtain ⟨r', same, -, rfl⟩ := makes_of_body body'
    cases same
    exact ⟨_, rfl, h.filled_wrapper live⟩
  | argument c =>
    obtain ⟨q, rfl, live, rfl⟩ := made
    obtain ⟨c', rfl, -⟩ := settles
    obtain ⟨q', same, -, rfl⟩ := makes_of_body body'
    cases same
    exact ⟨_, rfl, h.filled_argument live⟩
  | _ =>
    cases settles
    exact rfl

/-- An outline remains. -/
theorem outline? (h : s.Follows u) (told : s.outline? v = some l) : u.outline? v = some l := by
  obtain ⟨b, body, seen⟩ := Option.bind_eq_some_iff.1 told
  obtain ⟨b', body', settles⟩ := h.filled body
  exact Option.bind_eq_some_iff.2 ⟨b', body', settles.layer? seen⟩

end Follows

end Session

/-- Whether elements and keys hash apart. -/
def Body.isKeyed : Body → Bool
  | .set members => decide (members.map Member.hash).Nodup
  | .dict entries => decide (entries.map Entry.hash).Nodup
  | _ => true

theorem Body.separate_of_isKeyed {b : Body} (h : b.isKeyed = true) : b.Separate s := by
  cases b with
  | set members =>
    have apart := List.pairwise_map.1 (of_decide_eq_true h)
    exact apart.imp fun differ same => (differ same).elim
  | dict entries =>
    have apart := List.pairwise_map.1 (of_decide_eq_true h)
    exact apart.imp fun differ same => (differ same).elim
  | _ => trivial

theorem Body.Settles.isKeyed {b b' : Body} (h : b.Settles b') : b'.isKeyed = b.isKeyed := by
  cases b with
  | wrapper w c | argument c =>
    obtain ⟨c', rfl, -⟩ := h
    rfl
  | _ =>
    cases h
    rfl

namespace Session

/-- What takes no call to tell about a datum: it is a number that equals itself or no number, and if
it is an object, its attributes are there and its type is known. -/
structure Told (s : Session) (v : Value) : Prop where
  number : v.isNaN = false
  surface : v.isObject = true → (s.outline? v).isSome = true

/-- Besides, its elements or keys hash apart. -/
structure Clear (s : Session) (v : Value) : Prop extends Told s v where
  keyed : (s.body? v).all Body.isKeyed = true

instance (s : Session) (v : Value) : Decidable (s.Told v) :=
  decidable_of_iff (v.isNaN = false ∧ (v.isObject = true → (s.outline? v).isSome = true))
    ⟨fun h => ⟨h.1, h.2⟩, fun h => ⟨h.number, h.surface⟩⟩

instance (s : Session) (v : Value) : Decidable (s.Clear v) :=
  decidable_of_iff (s.Told v ∧ (s.body? v).all Body.isKeyed = true)
    ⟨fun h => ⟨h.1, h.2⟩, fun h => ⟨h.toTold, h.keyed⟩⟩

/-- A datum that is at most so deep and that satisfies a condition down to the ground. -/
def Outlined (P : Session → Value → Prop) (s : Session) : Nat → Value → Prop :=
  NestsBy (fun v x => x ∈ (s.outline v).parts) (P s)

instance decidableOutlined {P : Session → Value → Prop} (s : Session) [DecidablePred (P s)] :
    (n : Nat) → (v : Value) → Decidable (s.Outlined P n v)
  | 0, _ => inferInstanceAs (Decidable False)
  | n + 1, v =>
    have := s.decidableOutlined (P := P) n
    inferInstanceAs (Decidable (P s v ∧ ∀ x ∈ (s.outline v).parts, s.Outlined P n x))

/-! ### Outlined data are definite -/

/-- What a source stands for is answered, and it is kept, or it is no different each time. -/
theorem demand_of_target? {source : Value} (h : s.target? source = some t) :
    ∃ s', Types.demand Deferred.supplier source s = .ok t s' ∧
      ((Types.kept t).or source.known?).isSome = true := by
  cases source with
  | deferred d =>
    obtain ⟨name, -, -, type⟩ := target?_deferred h
    have given : t.isNull = false := by cases t <;> first | rfl | cases type
    refine ⟨_, evaluate_of_target? h ⟨[], Deferred.callWithin (s.reach + d.body.weight)⟩, ?_⟩
    rw [Types.kept_of_not_isNull given]
    rfl
  | _ =>
    cases h
    exact ⟨s, rfl, by simp [Value.known?]⟩

theorem target?_of_filled {o : Option Value}
    (told : ((o.bind s.target?).or (o.bind Value.known?)).isSome = true) :
    ∃ v t, o = some v ∧ s.target? v = some t := by
  rw [Option.isSome_or, Bool.or_eq_true] at told
  rcases told with told | told
  · obtain ⟨t, told⟩ := Option.isSome_iff_exists.1 told
    obtain ⟨v, based, target⟩ := Option.bind_eq_some_iff.1 told
    exact ⟨v, t, based, target⟩
  · obtain ⟨t, told⟩ := Option.isSome_iff_exists.1 told
    obtain ⟨v, based, known⟩ := Option.bind_eq_some_iff.1 told
    exact ⟨v, t, based, target?_of_known known⟩

theorem Clear.wrapper {w : Wrapper} {r : Ref .wrapper} (h : s.Clear (.wrapper w r)) :
    ∃ t u, Types.wrapped Deferred.supplier w r s = .ok t u ∧
      (u.layer? (.wrapper w r)).isSome = true := by
  obtain ⟨l, told⟩ := Option.isSome_iff_exists.1 (h.surface rfl)
  obtain ⟨b, body, seen⟩ := Option.bind_eq_some_iff.1 told
  obtain ⟨c, cell, rfl⟩ := Option.map_eq_some_iff.1 body
  obtain ⟨live, rfl⟩ := Arena.get?_eq_some cell
  cases resolved : (s.wrapper r).resolved with
  | some t =>
    refine ⟨t, s, Types.wrapped_of_resolved resolved, ?_⟩
    rw [layer?_wrapper live, WrappingType.type?, resolved, Option.some_or]
    rfl
  | none =>
    have known := congrArg Option.isSome seen
    simp only [Body.filled, Body.layer?, WrappingType.type?, WrappingType.filled,
      Option.isSome_map, Option.isSome_some] at known
    rw [show (s.wrappers.get r.index).resolved = none from resolved, Option.none_or] at known
    obtain ⟨source, t, based, target⟩ := target?_of_filled known
    obtain ⟨s', run, settled⟩ := demand_of_target? target
    have extension := Extends.demand run
    have live' := Nat.lt_of_lt_of_le live extension.wrappers.size
    refine ⟨t, _, Types.wrapped_of_demand resolved based run, ?_⟩
    have cell : (s'.putWrapper r { s'.wrapper r with resolved := Types.kept t }).wrapper r =
        { s'.wrapper r with resolved := Types.kept t } := Arena.get_put_self _ _ live'
    have source' := (extension.wrapper live).source.trans based
    rw [layer?_wrapper (by rwa [putWrapper, Arena.size_put]), cell, WrappingType.type?,
      Option.isSome_map, source', Option.bind_some]
    exact settled

/-- An argument that has its attributes has a surface when its type is known. -/
theorem isSome_layer?_argument {c : Argument} (name : c.name.isSome = true)
    (description : c.description.isSome = true) (hasDefault : c.hasDefault.isSome = true)
    (type : c.type?.isSome = true) : (Body.argument c).layer?.isSome = true := by
  obtain ⟨n, named⟩ := Option.isSome_iff_exists.1 name
  obtain ⟨d, described⟩ := Option.isSome_iff_exists.1 description
  obtain ⟨b, decided⟩ := Option.isSome_iff_exists.1 hasDefault
  obtain ⟨t, typed⟩ := Option.isSome_iff_exists.1 type
  simp [Body.layer?, named, described, decided, typed]

theorem Clear.argument {q : Ref .argument} (h : s.Clear (.argument q)) :
    ∃ t u, Arguments.type Deferred.supplier q s = .ok t u ∧
      (u.layer? (.argument q)).isSome = true := by
  obtain ⟨l, told⟩ := Option.isSome_iff_exists.1 (h.surface rfl)
  obtain ⟨b, body, seen⟩ := Option.bind_eq_some_iff.1 told
  obtain ⟨c, cell, rfl⟩ := Option.map_eq_some_iff.1 body
  obtain ⟨live, rfl⟩ := Arena.get?_eq_some cell
  change Body.layer? (.argument ((s.argument q).filled s)) = some l at seen
  simp only [Body.layer?, Option.bind_eq_bind, Option.bind_eq_some_iff,
    Option.pure_def] at seen
  obtain ⟨name, named, type, typed, description, described, hasDefault, decided, -⟩ := seen
  have whole : ∀ c : Argument, (s.argument q).Settles c → c.type?.isSome = true →
      (Body.argument c).layer?.isSome = true := fun c settles type =>
    isSome_layer?_argument (by rw [settles.name]; exact Option.isSome_of_eq_some named)
      (by rw [settles.description]; exact Option.isSome_of_eq_some described)
      (by rw [settles.hasDefault]; exact Option.isSome_of_eq_some decided) type
  cases resolved : (s.argument q).resolved with
  | some t =>
    refine ⟨t, s, Arguments.type_of_resolved resolved, ?_⟩
    rw [layer?_argument live]
    exact whole _ (.refl _) (by rw [Argument.type?, resolved]; rfl)
  | none =>
    have known := Option.isSome_of_eq_some typed
    rw [Argument.type?, Argument.filled, resolved, Option.none_or] at known
    obtain ⟨source, t, based, target⟩ :=
      target?_of_filled (o := some (s.argument q).source) known
    cases based
    obtain ⟨s', run, settled⟩ := demand_of_target? target
    have extension := Extends.demand run
    have live' := Nat.lt_of_lt_of_le live extension.arguments.size
    refine ⟨t, _, Arguments.type_of_demand resolved run, ?_⟩
    have cell : (s'.putArgument q { s'.argument q with resolved := Types.kept t }).argument q =
        { s'.argument q with resolved := Types.kept t } := Arena.get_put_self _ _ live'
    rw [layer?_argument (by rwa [putArgument, Arena.size_put]), cell]
    refine whole _ ((extension.argument live).resolve resolved (mayResolve_of_target? target)) ?_
    rw [Argument.type?, (extension.argument live).source]
    exact settled

theorem Clear.opens (h : s.Clear v) : s.Opens v where
  number := h.number
  live object := by
    obtain ⟨l, told⟩ := Option.isSome_iff_exists.1 (h.surface object)
    obtain ⟨b, body, -⟩ := Option.bind_eq_some_iff.1 told
    exact Option.isSome_of_eq_some body
  wrapper wraps := by
    subst wraps
    exact h.wrapper
  argument is := by
    subst is
    exact h.argument
  separate {b} body := by
    have keyed := h.keyed
    rw [body] at keyed
    exact Body.separate_of_isKeyed keyed

theorem body?_of_not_isObject (other : v.isObject = false) : u.body? v = s.body? v := by
  cases v <;> first | rfl | cases other

theorem outline_of_not_isObject (other : v.isObject = false) : u.outline v = s.outline v := by
  cases v <;> first | rfl | cases other

/-- What is clear remains so, with the same outline. -/
theorem Clear.later (h : s.Clear v) (follows : s.Follows u) :
    u.Clear v ∧ u.outline v = s.outline v := by
  cases object : v.isObject with
  | false =>
    refine ⟨⟨⟨h.number, fun is => ?_⟩, ?_⟩, outline_of_not_isObject object⟩
    · rw [object] at is
      cases is
    · rw [body?_of_not_isObject object]
      exact h.keyed
  | true =>
    obtain ⟨l, told⟩ := Option.isSome_iff_exists.1 (h.surface object)
    obtain ⟨b, body, -⟩ := Option.bind_eq_some_iff.1 told
    obtain ⟨b', body', settles⟩ := follows.extension.body? body
    have keyed := h.keyed
    have told' := follows.outline? told
    refine ⟨⟨⟨h.number, fun _ => Option.isSome_of_eq_some told'⟩, ?_⟩, ?_⟩
    · rw [body, Option.all_some] at keyed
      rw [body', Option.all_some, settles.isKeyed, keyed]
    · rw [outline_of_some told, outline_of_some told']

theorem Outlined.later (h : s.Outlined Clear n v) (follows : s.Follows u) :
    u.Outlined Clear n v := by
  induction n generalizing v with
  | zero => cases h
  | succ n ih =>
    obtain ⟨clear, same⟩ := h.1.later follows
    refine ⟨clear, fun x (hx : x ∈ (u.outline v).parts) => ih (h.2 x ?_)⟩
    rwa [same] at hx

/-- What is outlined is definite. -/
theorem Outlined.definite (h : s.Outlined Clear n v) : s.Definite n v := by
  induction n generalizing s v with
  | zero => cases h
  | succ n ih =>
    intro s' later
    obtain ⟨clear, parts⟩ := h.later (later.keeps Truthful.supplier.observed)
    refine ⟨clear.opens, fun x hx => ih (parts x ?_)⟩
    cases known : s'.layer? v with
    | none =>
      rw [layer_of_none known] at hx
      cases Multiset.notMem_zero x hx
    | some l =>
      rw [layer_of_some known] at hx
      rwa [outline_of_some (outline?_of_layer? known)]

/-! ### Outlined data are proper -/

/-- A type that can be told lies no deeper than what the cells hold. -/
theorem depth_of_told {o p : Option Value} (resolved : ∀ y ∈ o, y ∈ s.contents)
    (source : ∀ y ∈ p, y ∈ s.contents)
    (told : (o.or (p.bind s.target?)).or (p.bind Value.known?) = some t) : t.depth ≤ s.depth := by
  have shallow : ∀ y ∈ s.contents, y.depth ≤ s.depth := fun y hy => Value.depth_le_depths hy
  rcases Option.or_eq_some_iff.1 told with told | ⟨-, told⟩
  · rcases Option.or_eq_some_iff.1 told with known | ⟨-, told⟩
    · exact shallow t (resolved t known)
    · obtain ⟨y, based, target⟩ := Option.bind_eq_some_iff.1 told
      cases y with
      | deferred d =>
        obtain ⟨name, -, -, type⟩ := target?_deferred target
        have flat : t.depth = 0 := by cases t <;> first | rfl | cases type
        rw [flat]
        exact Nat.zero_le _
      | _ =>
        cases target
        exact shallow _ (source _ based)
  · obtain ⟨y, based, known⟩ := Option.bind_eq_some_iff.1 told
    cases Value.eq_of_known? known
    exact shallow _ (source _ based)

/-- The parts of an outline are less deep than a tuple or a record; otherwise the datum is among the
objects of the session, and its parts are no deeper than what the cells hold. -/
theorem outline_cases (hx : x ∈ (s.outline v).parts) :
    x.depth + 1 ≤ v.depth ∨ v ∈ s.objects ∧ x.depth ≤ s.depth := by
  cases told : s.outline? v with
  | none =>
    rw [outline, told] at hx
    cases Multiset.notMem_zero x hx
  | some l =>
    rw [outline_of_some told] at hx
    obtain ⟨b, body, seen⟩ := Option.bind_eq_some_iff.1 told
    have stored : x ∈ b.parts → x.depth + 1 ≤ v.depth ∨ v ∈ s.objects ∧ x.depth ≤ s.depth :=
      fun hx => (parts_cases (parts_of_body body ▸ hx)).imp_right fun among =>
        ⟨among.1, Value.depth_le_depths among.2⟩
    have made := makes_of_body body
    cases b with
    | wrapper w c =>
      obtain ⟨r, rfl, live, rfl⟩ := made
      obtain ⟨t, type, rfl⟩ := Option.map_eq_some_iff.1 seen
      obtain rfl : x = t := by simpa [Layer.parts] using hx
      refine .inr ⟨by cases w <;> simp [objects, mem_references, live], ?_⟩
      refine depth_of_told (fun y hy => ?_) (fun y hy => ?_) type
      all_goals
        refine mem_contents_of_wrapper live ?_
        simp_all [WrappingType.contents]
    | argument c =>
      obtain ⟨q, rfl, live, rfl⟩ := made
      simp only [Body.filled, Body.layer?, Option.bind_eq_bind, Option.bind_eq_some_iff,
        Option.pure_def, Option.some.injEq] at seen
      obtain ⟨name, named, type, typed, description, described, hasDefault, decided, rfl⟩ := seen
      by_cases is : x = type
      · subst is
        refine .inr ⟨by simp [objects, mem_references, live], ?_⟩
        refine depth_of_told (o := (s.argument q).resolved) (p := some (s.argument q).source)
          (fun y hy => ?_) (fun y hy => ?_) typed
        all_goals
          refine mem_contents_of_argument live ?_
          simp_all [Argument.contents]
      · refine stored ?_
        simp only [Layer.parts, Multiset.mem_cons, Multiset.mem_coe, is, false_or] at hx
        simp only [Argument.filled] at named described decided hx
        simp only [Body.parts, List.mem_append, named, described, decided, Option.toList_some,
          List.mem_singleton]
        rcases hx with hx | hx | hx | hx
        · exact .inl (.inl (.inl (.inl (.inl hx))))
        · exact .inl (.inl (.inl (.inl (.inr hx))))
        · exact .inl (.inl (.inl (.inr hx)))
        · exact .inl (.inr hx)
    | directive d =>
      cases seen
      exact stored (by simpa [Layer.parts, Body.parts, Directive.contents] using hx)
    | dict entries =>
      cases seen
      refine stored ?_
      simp only [Layer.parts, Multiset.map_coe, List.map_map, Multiset.mem_add, Multiset.mem_coe,
        List.mem_map, Function.comp_apply] at hx
      rcases hx with ⟨e, he, rfl⟩ | ⟨e, he, rfl⟩
      · exact List.mem_flatMap.2 ⟨e, he, by simp [Entry.contents]⟩
      · exact List.mem_flatMap.2 ⟨e, he, by simp [Entry.contents]⟩
    | _ =>
      cases seen
      exact stored (by simpa [Layer.parts, Body.parts] using hx)

/-- What is outlined is proper, however deep it is nested, unless it is a tuple or a record. -/
theorem Outlined.proper (h : s.Outlined Clear n v) (flat : v.depth = 0) : s.Proper v := by
  have bounded : s.Outlined Clear _ v := NestsBy.bounded h outline_cases
  have room := bound_le s 0
  rw [flat] at bounded
  exact ⟨_, room, bounded.definite⟩

end Session

end DirectiveSchema

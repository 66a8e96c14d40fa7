import DirectiveSchema.Proofs.Casting
import DirectiveSchema.Proofs.Sketching

/-!
Coherent sessions remain coherent. What an action that tallies with itself leaves refers to what is
in use, and whatever was in use still is. From the observations, and from the changes that requests
make to data that are in use, this holds of every request whose calls are quiet, and so of every run
of such requests.
-/
namespace DirectiveSchema

open Pairing

variable {α β : Type} {φ ψ : Pairing} {s t : Session} {k : CellKind} {i : Nat} {c : Cell}
  {strict : Prop} {v w : Value} {vs ws : List Value}

/-- A session becomes a coherent one, in which all that was in use still is, if it is coherent and
some data refer to what is in use. -/
def Sustains (vs : List Value) (t t' : Session) : Prop :=
  t.Coherent → t.identity.RelatesAll vs vs → t'.Coherent ∧ t.identity ≤ t'.identity

theorem Sustains.lasting : Lasting (Sustains vs) where
  refl _ coherent _ := ⟨coherent, le_refl _⟩
  trans h h' coherent used :=
    let ⟨coherent', le⟩ := h coherent used
    let ⟨coherent'', le'⟩ := h' coherent' (RelatesAll.mono le used)
    ⟨coherent'', le_trans le le'⟩

/-! ### Actions that tally with themselves -/

section

variable {x : Action α} {f : α → Action β} {post : Pairing → α → α → Prop}

/-- What is paired is in use in the one session and in the other. -/
theorem Abreast.own (h : Abreast φ s t) (k : Option CellKind) (i j : Nat) (paired : φ k i j) :
    s.identity k i i :=
  h.elim fun _ ahead => ⟨rfl, (ahead.within paired).1⟩

theorem Abreast.other (h : Abreast φ s t) (k : Option CellKind) (i j : Nat) (paired : φ k i j) :
    t.identity k j j :=
  h.elim fun _ ahead => ⟨rfl, (ahead.within paired).2⟩

theorem Tally.sustains (h : Tally strict t.identity x x post t t) (coherent : t.Coherent) :
    (x.after t).Coherent ∧ t.identity ≤ (x.after t).identity := by
  cases h with
  | ok run _ le abreast =>
    rw [Action.after_of_ok run]
    exact ⟨abreast.coherent, coherent.abreast.identity_le le abreast⟩
  | error run _ le abreast =>
    rw [Action.after_of_error run]
    exact ⟨abreast.coherent, coherent.abreast.identity_le le abreast⟩
  | endless run _ coherent' same =>
    rw [Action.after_of_error run]
    exact ⟨coherent', same⟩

theorem Keeps.of_tallies (h : ∀ t : Session, t.Coherent → t.identity.RelatesAll vs vs →
      Tallies False t.identity x x post) : Keeps (Sustains vs) x :=
  fun t coherent used => (h t coherent used t t coherent.abreast).sustains coherent

/-- What follows a result may rely on the datum in it, which refers to what is in use. -/
theorem Keeps.bindUsed (held : α → Value)
    (first : ∀ t : Session, t.Coherent → t.identity.RelatesAll vs vs →
      Tallies False t.identity x x fun ψ a b => ψ.Relates (held a) (held b))
    (rest : ∀ a, Keeps (Sustains (held a :: vs)) (f a)) : Keeps (Sustains vs) (x >>= f) := by
  intro t coherent used
  have kept := Keeps.of_tallies first t coherent used
  cases first t coherent used t t coherent.abreast with
  | @ok ψ a b t' t'' run run' _ abreast related =>
    cases run.symm.trans run'
    rw [Action.after_of_ok run] at kept
    have since := rest a t' kept.1 (.cons (related.left abreast.own) (RelatesAll.mono kept.2 used))
    have same : (x >>= f).after t = (f a).after t' := by
      simp only [Action.after, Action.bind_of_ok run]
    exact same ▸ ⟨since.1, le_trans kept.2 since.2⟩
  | error run =>
    rw [Action.after_of_error (Action.bind_of_error run)]
    rwa [Action.after_of_error run] at kept
  | endless run =>
    rw [Action.after_of_error (Action.bind_of_error run)]
    rwa [Action.after_of_error run] at kept

end

/-! ### Observations -/

/-- A cell that is not there has no type to be obtained. -/
theorem Types.after_obtained_of_le {supply : Supplier} {missing : Fault} (dead : t.count k ≤ i) :
    (obtained supply k i missing).after t = t := by
  cases k with
  | wrapper =>
    have cell : t.wrapper ⟨i⟩ = default := Arena.get_of_le dead
    refine Action.after_of_error (obtained_of_blank ?_ ?_)
    · exact congrArg WrappingType.resolved cell
    · exact congrArg WrappingType.source cell
  | argument =>
    have cell : t.argument ⟨i⟩ = default := Arena.get_of_le dead
    have unresolved : (t.cell .argument i).resolved? = none := congrArg Argument.resolved cell
    have based : (t.cell .argument i).source? = some .null :=
      congrArg (some ∘ Argument.source) cell
    rw [Action.after_of_ok (obtained_of_demand unresolved based rfl),
      Cell.resolve_of_isNull unresolved rfl, Session.put_cell]
  | _ => exact Action.after_of_error (obtained_of_blank rfl rfl)

namespace Sustains

theorem obtained (writes : List Value) (k : CellKind) (i : Nat) {missing : Fault}
    (plain : missing.IsPlain) :
    Keeps (Sustains vs) (Types.obtained ⟨writes, Deferred.supplier.answer⟩ k i missing) := by
  intro t coherent used
  rcases Nat.lt_or_ge i (t.count k) with live | dead
  · have tally : Tallies False t.identity
        (Types.obtained ⟨writes, Deferred.supplier.answer⟩ k i missing)
        (Types.obtained ⟨writes, Deferred.supplier.answer⟩ k i missing) Relates :=
      .obtained ⟨rfl, live⟩ plain
    exact (tally t t coherent.abreast).sustains coherent
  · rw [Types.after_obtained_of_le dead]
    exact ⟨coherent, le_refl _⟩

theorem observed : Observed Deferred.supplier.answer (Sustains vs) :=
  { lasting with
    wrapped := fun writes w r => by
      rw [Types.wrapped_eq]
      exact obtained writes _ _ (.inl rfl)
    type := fun writes r => by
      rw [Types.type_eq]
      exact obtained writes _ _ (.inl rfl)
    note := fun n => .of_tallies fun _ _ _ => .note n }

theorem checked : Checked Deferred.supplier.answer (Sustains vs) := observed.toChecked

end Sustains

/-! ### Changes of what is in use -/

theorem Pairing.RelatesAttributes.put {as bs : Attributes} (h : φ.RelatesAttributes as bs)
    (key : String) (related : φ.Relates v w) :
    φ.RelatesAttributes (as.put key v) (bs.put key w) := by
  induction h with
  | nil => exact .cons ⟨rfl, related⟩ .nil
  | @cons p q as bs first rest ih =>
    obtain ⟨key', u⟩ := p
    obtain ⟨_, u'⟩ := q
    obtain ⟨rfl, first⟩ := first
    simp only [Attributes.put]
    split
    · exact .cons ⟨rfl, related⟩ rest
    · exact .cons ⟨rfl, first⟩ ih

theorem Pairing.RelatesAttributes.erase {as bs : Attributes} (h : φ.RelatesAttributes as bs)
    (key : String) : φ.RelatesAttributes (as.erase key) (bs.erase key) := by
  induction h with
  | nil => exact .nil
  | @cons p q as bs first _ ih =>
    simp only [Attributes.erase, List.filter_cons, first.1]
    split
    · exact .cons first ih
    · exact ih

namespace Session.Coherent

variable (h : t.Coherent)

include h

/-- A cell may hold whatever refers to what is in use. -/
theorem put (live : i < t.count c.kind) (cells : t.identity.RelatesCells c c) :
    (t.put i c).Coherent ∧ t.identity ≤ (t.put i c).identity := by
  refine ⟨(Ahead.put h (k := c.kind) ⟨rfl, live⟩ rfl cells id).coherent, ?_⟩
  rintro k j _ ⟨rfl, live⟩
  exact ⟨rfl, by rwa [used_put]⟩

theorem noted (journal : List Notice) : { t with journal }.Coherent :=
  (h.abreast.noted journal []).coherent

/-- Names may be bound to whatever is in use. -/
theorem rebind {bindings : List (String × Value)}
    (used : t.identity.RelatesAttributes bindings bindings) : { t with bindings }.Coherent :=
  .intro (s := { t with bindings }) h.empty h.scalars used fun {k i} live =>
    h.cells (k := k) (i := i) ⟨rfl, live⟩

end Session.Coherent

namespace Sustains

theorem set (v : Value) (key : String) (new : Value) :
    Keeps (Sustains [new, v]) (Access.set v key new) := by
  intro t coherent used
  obtain ⟨new, used⟩ := List.forall₂_cons.1 used
  obtain ⟨used, -⟩ := List.forall₂_cons.1 used
  have abreast := coherent.abreast
  unfold Access.set
  split
  · exact ⟨coherent, le_refl _⟩
  · cases used with
    | named paired =>
      have related := abreast.namedType paired
      refine coherent.put (c := .named _) paired.2 (.named ?_)
      split
      · exact { related with name := .some new }
      · exact { related with extra := related.extra.put key new }
    | scalar paired =>
      have related := abreast.scalar paired
      refine coherent.put (c := .scalar _) paired.2 (.scalar ?_)
      split
      · exact { related with name := .some new }
      · exact { related with description := .some new }
      · exact { related with extra := related.extra.put key new }
    | wrapper w paired =>
      have related := abreast.wrapper paired
      exact coherent.put (c := .wrapper _) paired.2
        (.wrapper { related with extra := related.extra.put key new })
    | argument paired =>
      have related := abreast.argument paired
      refine coherent.put (c := .argument _) paired.2 (.argument ?_)
      split
      · exact { related with name := .some new }
      · exact { related with description := .some new }
      · exact { related with hasDefault := .some new }
      · exact { related with extra := related.extra.put key new }
    | _ => exact ⟨coherent, le_refl _⟩

theorem without (v : Value) (key : String) :
    Keeps (Sustains [v]) (modify fun s => Access.without s v key : Action Unit) := by
  intro t coherent used
  obtain ⟨used, -⟩ := List.forall₂_cons.1 used
  have abreast := coherent.abreast
  cases used with
  | named paired =>
    have related := abreast.namedType paired
    refine coherent.put (c := .named _) paired.2 (.named ?_)
    split
    · exact { related with name := .none }
    · exact { related with extra := related.extra.erase key }
  | scalar paired =>
    have related := abreast.scalar paired
    refine coherent.put (c := .scalar _) paired.2 (.scalar ?_)
    split
    · exact { related with name := .none }
    · exact { related with description := .none }
    · exact { related with extra := related.extra.erase key }
  | wrapper w paired =>
    have related := abreast.wrapper paired
    exact coherent.put (c := .wrapper _) paired.2
      (.wrapper { related with extra := related.extra.erase key })
  | argument paired =>
    have related := abreast.argument paired
    refine coherent.put (c := .argument _) paired.2 (.argument ?_)
    split
    · exact { related with name := .none }
    · exact { related with description := .none }
    · exact { related with hasDefault := .none }
    · exact { related with extra := related.extra.erase key }
  | _ => exact ⟨coherent, le_refl _⟩

theorem delete (v : Value) (key : String) : Keeps (Sustains [v]) (Access.delete v key) := by
  have owned : Keeps (Sustains [v]) (do
      if Access.owns (← MonadState.get) v key then modify fun s => Access.without s v key
      else throw (.noAttribute v.className key) : Action Unit) := by
    refine lasting.bindGet fun s => ?_
    split
    · exact without v key
    · exact lasting.throw _
  simp only [Access.delete]
  split
  · exact lasting.throwFirst _
  · cases v with
    | directive | config => exact lasting.throw _
    | _ => exact owned

theorem append (v x : Value) : Keeps (Sustains [x, v]) (Access.append v x) := by
  intro t coherent used
  obtain ⟨new, used⟩ := List.forall₂_cons.1 used
  obtain ⟨used, -⟩ := List.forall₂_cons.1 used
  cases used with
  | list paired =>
    exact coherent.put (c := .list _) paired.2
      (.list (List.rel_append (coherent.abreast.list paired) (.cons new .nil)))
  | _ => exact ⟨coherent, le_refl _⟩

theorem bindName (name : Option String) (v : Value) :
    Keeps (Sustains (v :: vs)) (Request.bindName name v) := by
  intro t coherent used
  cases name with
  | none => exact ⟨coherent, le_refl _⟩
  | some x =>
    exact ⟨coherent.rebind (.cons ⟨rfl, (List.forall₂_cons.1 used).1⟩ coherent.bindings), le_refl _⟩

end Sustains

/-! ### Requests -/

/-- Whether all calls that a request may lead to are quiet. -/
def Request.isQuiet (q : Request) : Bool := q.data.all fun e => e.isQuiet false

theorem Request.quiet_of_mem {q : Request} (quiet : q.isQuiet = true) {e : Expression}
    (given : e ∈ q.data) : e.isQuiet false = true := List.all_eq_true.1 quiet e given

theorem Tallies.copy (mode : CopyMode) (related : φ.Relates v w) :
    Tallies False φ (v.copy Deferred.supplier mode) (w.copy Deferred.supplier mode) Relates := by
  cases mode with
  | shallow => exact shallowCopy related
  | deep => exact deepCopy related
  | stored => exact storedCopy related

namespace Sustains

theorem showBound (name : Option String) (v : Value) :
    Keeps (Sustains (v :: vs)) (Request.showBound Deferred.supplier name v) :=
  lasting.bind (checked.answer v) fun _ => lasting.bind (bindName name v) fun _ => lasting.pure _

theorem classBound (name : Option String) (v : Value) :
    Keeps (Sustains (v :: vs)) (Request.classBound name v) :=
  lasting.bind (bindName name v) fun _ => lasting.pure _

/-- To describe a datum that is in use, no more is built than a configuration or wrappers of it. -/
theorem describe (v : Value) : Keeps (Sustains [v]) (Description.of Deferred.supplier v) := by
  have wraps (w : Wrapper) : Keeps (Sustains [v]) (Types.wrap w v) :=
    .of_tallies fun _ _ used => Tallies.tandem.wrap w (List.forall₂_cons.1 used).1
  cases v with
  | directive r =>
    have config {t : Session} (used : t.identity.Relates (.directive r) (.directive r)) :
        Tallies False t.identity (Directives.toConfig r) (Directives.toConfig r) Relates := by
      cases used with
      | directive paired => exact .toConfig paired
    exact checked.describeDirective _ r
      (.of_tallies fun _ _ used => config (List.forall₂_cons.1 used).1)
  | argument => exact checked.describeArgument _
  | _ => exact checked.describeOther _ wraps

theorem perform {q : Request} (quiet : q.isQuiet = true) :
    Keeps (Sustains []) (q.perform Deferred.supplier) := by
  have eval {vs : List Value} {α : Type} {f : Value → Action α} (e : Expression)
      (given : e ∈ q.data) (rest : ∀ v, Keeps (Sustains (v :: vs)) (f v)) :
      Keeps (Sustains vs) (e.eval Deferred.supplier >>= f) :=
    .bindUsed id (fun _ _ _ => .eval e (Request.quiet_of_mem quiet given) _) rest
  have first {t : Session} {v : Value} {vs : List Value} (used : t.identity.RelatesAll (v :: vs)
      (v :: vs)) : t.identity.Relates v v := (List.forall₂_cons.1 used).1
  cases q with
  | demand t =>
    exact eval (.type t) (.head _) fun v => lasting.bind
      (.of_tallies fun _ _ used => .demand (first used)) checked.answer
  | describe e => exact eval e (.head _) describe
  | declare name e => exact eval e (.head _) fun _ => classBound _ _
  | declareType name t => exact eval (.type t) (.head _) fun _ => classBound _ _
  | get e key name =>
    exact eval e (.head _) fun v => .bindUsed id
      (fun _ _ used => .get key (first used)) fun _ => showBound _ _
  | set e key new =>
    exact eval e (.head _) fun v => eval new (.tail _ (.head _)) fun new =>
      lasting.bind (set v key new) fun _ => lasting.pure _
  | delete e key =>
    exact eval e (.head _) fun v => lasting.bind (delete v key) fun _ => lasting.pure _
  | item e key name =>
    exact eval e (.head _) fun v => eval key (.tail _ (.head _)) fun key => .bindUsed id
      (fun _ _ used => .item (List.forall₂_cons.1 (List.forall₂_cons.1 used).2).1 (first used))
      fun _ => showBound _ _
  | append e x =>
    exact eval e (.head _) fun v => eval x (.tail _ (.head _)) fun x =>
      lasting.bind (append v x) fun _ => lasting.pure _
  | copy e mode name =>
    exact eval e (.head _) fun v => .bindUsed id
      (fun _ _ used => .copy mode (first used)) fun _ => classBound _ _
  | wrap w e name =>
    refine eval e (.head _) fun v => ?_
    dsimp only
    split
    · exact lasting.throwFirst _
    · exact .bindUsed id (fun _ _ used => Tallies.tandem.wrap w (first used)) fun _ => showBound _ _
  | toConfig e name =>
    refine eval e (.head _) fun v => ?_
    refine .bindUsed Value.directive
      (fun _ _ used => (Tallies.asDirective _ (first used)).weaken
        fun _ paired => .directive paired)
      fun r => .bindUsed id (fun t _ used => ?_) fun _ => showBound _ _
    have used := first used
    cases used with
    | directive paired => exact .toConfig paired
  | fromConfig e name =>
    exact eval e (.head _) fun v => .bindUsed Value.directive
      (fun _ _ used => (Tallies.fromConfig (first used)).weaken fun _ paired => .directive paired)
      fun _ => showBound _ _
  | _ =>
    exact checked.perform rfl fun e given => .of_tallies fun _ _ _ =>
      .eval e (Request.quiet_of_mem quiet given) _

end Sustains

/-! ### Runs -/

namespace Session.Coherent

/-- A request that fails forgets what it bound, and all else remains in use. -/
theorem run (h : t.Coherent) {q : Request} (quiet : q.isQuiet = true) : (t.run q).2.Coherent := by
  have kept := Sustains.checked.guard (Sustains.perform quiet) { t with journal := [] } (h.noted [])
    .nil
  simp only [Session.run]
  cases result : Answer.guard Deferred.supplier (q.perform Deferred.supplier)
      { t with journal := [] } with
  | ok o t' =>
    rw [Action.after_of_ok result] at kept
    exact kept.1.noted _
  | error f t' =>
    rw [Action.after_of_error result] at kept
    exact (kept.1.rebind (RelatesAttributes.mono kept.2 h.bindings)).noted _

theorem runAll (h : t.Coherent) {qs : List Request} (quiet : ∀ q ∈ qs, q.isQuiet = true) :
    (t.runAll qs).2.Coherent := by
  induction qs generalizing t with
  | nil => exact h
  | cons q qs ih =>
    exact ih (h.run (quiet q List.mem_cons_self)) fun q hq => quiet q (List.mem_cons_of_mem _ hq)

end Session.Coherent

/-! ### The first session -/

namespace BuiltIn

theorem scalars_related {c : ScalarType} (among : c ∈ scalars) : φ.RelatesScalars c c := by
  simp only [scalars, List.mem_cons, List.not_mem_nil, or_false] at among
  rcases among with rfl | rfl | rfl | rfl | rfl <;>
    exact ⟨.some (.text _), .some (.text _), .plain rfl, .plain rfl, .nil⟩

/-- What is bound before the first request, and what it is made of, refers to what is there. -/
theorem session_coherent : session.Coherent := by
  have scalar {r : Ref .scalar} (builtIn : isScalar r = true) :
      session.identity (some .scalar) r.index r.index := ⟨rfl, isScalar_iff.1 builtIn⟩
  have scalars : session.identity.RelatesAll (scalarRefs.map .scalar) (scalarRefs.map .scalar) := by
    refine List.forall₂_same.2 fun v among => ?_
    obtain ⟨r, builtIn, rfl⟩ := List.mem_map.1 among
    exact .scalar (scalar (List.contains_iff_mem.2 builtIn))
  have directives : session.identity.RelatesAll [.directive includeRef, .directive skipRef]
      [.directive includeRef, .directive skipRef] :=
    .cons (.directive ⟨rfl, by decide⟩) (.cons (.directive ⟨rfl, by decide⟩) .nil)
  refine .intro ⟨rfl, by decide⟩ scalar ?_ fun {k i} live => ?_
  · have named (p : String × Value) (among : p ∈ scalarNames.zip (scalarRefs.map .scalar)) :
        p.1 = p.1 ∧ session.identity.Relates p.2 p.2 :=
      ⟨rfl, List.forall₂_same.1 scalars _ (List.of_mem_zip among).2⟩
    refine List.rel_append (List.forall₂_same.2 named) ?_
    exact .cons ⟨rfl, .directive ⟨rfl, by decide⟩⟩ (.cons ⟨rfl, .directive ⟨rfl, by decide⟩⟩
      (.cons ⟨rfl, Relates.tuple_iff.2 ⟨⟨rfl, by decide⟩, directives⟩⟩
        (.cons ⟨rfl, Relates.tuple_iff.2 ⟨⟨rfl, by decide⟩, scalars⟩⟩ .nil)))
  · have locations (n : Nat) (live : n < 7) : session.identity.Relates
        (.tuple n executableLocations) (.tuple n executableLocations) :=
      Relates.tuple_iff.2 ⟨⟨rfl, live⟩, .cons (.location _) (.cons (.location _)
        (.cons (.location _) .nil))⟩
    have argument (n a : Nat) (live : n < 7) (live' : a < 2) : session.identity.Relates
        (.tuple n [.argument ⟨a⟩]) (.tuple n [.argument ⟨a⟩]) :=
      Relates.tuple_iff.2 ⟨⟨rfl, live⟩, .cons (.argument ⟨rfl, live'⟩) .nil⟩
    have condition (n : Nat) (live : n < 2) (text : String) :
        session.identity.RelatesArguments (condition n text) (condition n text) :=
      ⟨.some (.text _), .some (.text _), .some (.bool _), .none, .wrapper _ ⟨rfl, live⟩, .none _,
        .nil⟩
    cases k with
    | scalar => exact .scalar (scalars_related (session.scalars.get_mem_toList live))
    | wrapper =>
      have among : session.wrapper ⟨i⟩ ∈ [truthRequired, truthRequired] :=
        session.wrappers.get_mem_toList live
      have same : session.wrapper ⟨i⟩ = truthRequired := by simpa using among
      rw [Session.cell, same]
      exact .wrapper ⟨.some (.scalar (scalar rfl)), .none _, .nil⟩
    | argument =>
      obtain rfl | rfl := Nat.le_one_iff_eq_zero_or_eq_one.1 (Nat.le_of_lt_succ live)
      · exact .argument (condition 0 (by decide) _)
      · exact .argument (condition 1 (by decide) _)
    | directive =>
      obtain rfl | rfl := Nat.le_one_iff_eq_zero_or_eq_one.1 (Nat.le_of_lt_succ live)
      · exact .directive ⟨.text _, .text _, locations 1 (by decide),
          argument 2 0 (by decide) (by decide)⟩
      · exact .directive ⟨.text _, .text _, locations 3 (by decide),
          argument 4 1 (by decide) (by decide)⟩
    | _ => exact absurd live (Nat.not_lt_zero i)

end BuiltIn

end DirectiveSchema

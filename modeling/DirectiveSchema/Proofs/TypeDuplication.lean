import DirectiveSchema.Proofs.Duplication
import DirectiveSchema.Proofs.Resemblance

/-!
Deep copies of types and arguments. A chain of wrappers is resolved while it is copied; no wrapper
is met twice, since then the chain would have no end. The data in an argument are copied before its
type, and what was met in them stays at hand.
-/
namespace DirectiveSchema.DeepCopy

open Relation (TransGen)
open Snapshot (Firm Ready Vessel PlainArgument)

variable {α : Type} {u s t t' : Session} {v x y z : Value} {k n N : Nat} {memo new : Memo}

theorem remember_of (v copy : Value) {memo : Memo} {t : Session} :
    remember v copy memo t = .ok (copy, (v, copy) :: memo) t := rfl

/-! ### Objects that are filled later -/

/-- As long as an object is open, it is no part of a copy. -/
theorem endures_of_put {kind : CellKind} {content : Type} {create : Action (Ref kind)}
    {value : Ref kind → Value} {put : Session → Ref kind → content → Session}
    {aliases : Ref kind → List Value} {body : content → Body} {r : Ref kind}
    (vessel : Vessel create value put aliases body)
    (blank : ∀ x ∈ aliases r, ∀ b, t.body? x = some b → b.isFixed = false) (c : content) :
    t.Endures (put t r c) := by
  intro x b fixed present
  have other : x ∉ aliases r := by
    intro hx
    rw [blank x hx b present] at fixed
    cases fixed
  rwa [vessel.others c other]

/-- A wrapper that was just made, and that is filled after others were copied. -/
theorem fill_wrapper (extension : Session.Extends { t with wrappers := t.wrappers.add .blank } t')
    (w : Wrapper) (c : WrappingType) :
    t'.Endures (t'.putWrapper ⟨t.wrappers.size⟩ c) ∧
      (t'.putWrapper ⟨t.wrappers.size⟩ c).body? (.wrapper w ⟨t.wrappers.size⟩) =
        some (.wrapper w c) := by
  have blank (w : Wrapper) : ∃ c, t'.body? (.wrapper w ⟨t.wrappers.size⟩) = some (.wrapper w c) ∧
      WrappingType.blank.Settles c :=
    extension.body_wrapper (congrArg (Option.map (Body.wrapper w)) (Arena.get?_add_self _ _))
  constructor
  · refine endures_of_put (Snapshot.vessel_wrapper w) (fun x hx b present => ?_) c
    have unresolved {w : Wrapper} (present : t'.body? (.wrapper w ⟨t.wrappers.size⟩) = some b) :
        b.isFixed = false := by
      obtain ⟨c', body, settles⟩ := blank w
      cases body.symm.trans present
      cases resolved : c'.resolved with
      | none => rw [Body.isFixed, resolved]; rfl
      | some z => rcases settles.honest resolved with h | ⟨_, h, -⟩ <;> cases h
    simp only [Snapshot.wrapperAliases, List.mem_cons, List.not_mem_nil, or_false] at hx
    rcases hx with rfl | rfl | rfl <;> exact unresolved present
  · obtain ⟨c', body, -⟩ := blank w
    exact (Snapshot.vessel_wrapper w).filled c (by rw [body]; rfl)

/-- An argument that was just made, and that is filled after what it holds was copied. -/
theorem fill_argument
    (extension : Session.Extends { t with arguments := t.arguments.add .blank } t') (c : Argument) :
    t'.Endures (t'.putArgument ⟨t.arguments.size⟩ c) ∧
      (t'.putArgument ⟨t.arguments.size⟩ c).body? (.argument ⟨t.arguments.size⟩) =
        some (.argument c) := by
  obtain ⟨c', body, settles⟩ : ∃ c, t'.body? (.argument ⟨t.arguments.size⟩) = some (.argument c) ∧
      Argument.blank.Settles c :=
    extension.body_argument (congrArg (Option.map Body.argument) (Arena.get?_add_self _ _))
  refine ⟨endures_of_put Snapshot.vessel_argument (fun x hx b present => ?_) c,
    Snapshot.vessel_argument.filled c (by rw [body]; rfl)⟩
  cases List.mem_singleton.1 hx
  cases body.symm.trans present
  rw [Body.isFixed, settles.name]
  rfl

/-! ### Chains of wrappers -/

/-- A wrapper, and the type that it is known to wrap. -/
def Inside (t : Session) (p v : Value) : Prop :=
  ∃ w r, p = .wrapper w r ∧ (t.wrapper r).resolved = some v

theorem Inside.extends (h : Inside t x y) (extension : t.Extends t') : Inside t' x y := by
  obtain ⟨w, r, rfl, resolved⟩ := h
  have live := Snapshot.live_of_known (s := t) (r := r) (.inr (by rw [resolved]; rfl))
  exact ⟨w, r, rfl, (extension.wrapper live).resolved resolved⟩

/-- The way from a wrapper to the end of its chain is longer than that from a type within it. -/
theorem unwrapWithin_of_inside {supply : Supplier} (within : TransGen (Inside t) x v)
    (run : Types.unwrapWithin supply k x t = .ok z t') :
    ∃ j < k, Types.unwrapWithin supply j v t = .ok z t' := by
  have step {k : Nat} {x v : Value} (inside : Inside t x v)
      (run : Types.unwrapWithin supply k x t = .ok z t') :
      ∃ j < k, Types.unwrapWithin supply j v t = .ok z t' := by
    obtain ⟨w, r, rfl, resolved⟩ := inside
    cases k with
    | zero => cases run
    | succ k =>
      exact ⟨k, Nat.lt_succ_self k,
        (Action.bind_of_ok (Types.wrapped_of_resolved resolved)).symm.trans run⟩
  induction within with
  | single inside => exact step inside run
  | tail _ inside ih =>
    obtain ⟨j, less, run⟩ := ih
    obtain ⟨i, less', run⟩ := step inside run
    exact ⟨i, Nat.lt_trans less' less, run⟩

/-- A wrapper whose chain has an end does not lie within itself. -/
theorem not_inside_self {supply : Supplier}
    (run : Types.unwrapWithin supply k v t = .ok z t') : ¬TransGen (Inside t) v v := by
  intro within
  induction k using Nat.strong_induction_on with
  | _ k ih =>
    obtain ⟨j, less, run⟩ := unwrapWithin_of_inside within run
    exact ih j less run

/-- Of what is remembered, only the wrappers around a type have to do with it. -/
def Clear (t : Session) (memo : Memo) (v : Value) : Prop :=
  ∀ p ∈ memo, p.1.isAtom = false ∧ (p.1.isWrapper = true → TransGen (Inside t) p.1 v)

/-- The next wrapper of a chain is remembered. -/
theorem Clear.enter (h : Clear t memo v) (extension : t.Extends t') (inside : Inside t' v z)
    (copy : Value) : Clear t' ((v, copy) :: memo) z := by
  intro p hp
  rcases List.mem_cons.1 hp with rfl | hp
  · refine ⟨?_, fun _ => .single inside⟩
    obtain ⟨w, r, rfl, -⟩ := inside
    rfl
  · obtain ⟨object, within⟩ := h p hp
    refine ⟨object, fun wraps => .tail ?_ inside⟩
    exact TransGen.mono (fun _ _ h => h.extends extension) _ _ (within wraps)

/-- A type whose chain has an end was not copied while the wrappers around it were met. -/
theorem Clear.find?_eq_none {supply : Supplier} {q : Ref .scalar} (h : Clear t memo v)
    (run : Types.unwrapWithin supply k v t = .ok (.scalar q) t')
    (builtIn : BuiltIn.isScalar q = true) : memo.find? v = none := by
  refine Memo.find?_eq_none fun p hp => ?_
  obtain ⟨object, within⟩ := h p hp
  cases same : p.1.same v with
  | false => rfl
  | true =>
    cases wraps : v.isWrapper with
    | true =>
      have typed : v.isTyped = true := by
        cases v <;> first | rfl | cases wraps
      have eq := Snapshot.eq_of_same_of_isTyped same typed
      rw [eq] at within
      exact absurd (within wraps) (not_inside_self run)
    | false =>
      obtain ⟨rfl, -⟩ := Snapshot.eq_of_unwrapWithin run wraps
      have atom : (Value.scalar q).isAtom = true := builtIn
      have nests : t.Nests Session.Plain 1 (.scalar q) :=
        .of_isAtom atom (Session.plain_of_isAtom atom) 0
      rw [Value.eq_of_same same nests.sound, atom] at object
      cases object

/-- A wrapper is copied if the type that it wraps is copied after it was resolved. -/
theorem ofObject_wrapper {f : Value → Copying Value} {w : Wrapper} {r : Ref .wrapper}
    {t₁ t₂ : Session} {later : Memo}
    (wrapped : Types.wrapped Deferred.supplier w r t = .ok z t₁) (known : z.isNull = false)
    (inner : f z ((.wrapper w r, .wrapper w ⟨t₁.wrappers.size⟩) :: memo)
      { t₁ with wrappers := t₁.wrappers.add .blank } = .ok (y, later) t₂)
    (extension : Session.Extends { t₁ with wrappers := t₁.wrappers.add .blank } t₂)
    (copies : t₂.Replicates y z) :
    ∃ t', ofObject Deferred.supplier f (.wrapper w r) memo t =
        .ok (.wrapper w ⟨t₁.wrappers.size⟩, later) t' ∧
      t'.Replicates (.wrapper w ⟨t₁.wrappers.size⟩) (.wrapper w r) := by
  obtain ⟨c, body, resolved⟩ := Snapshot.wrapped_kept wrapped known
  have again : Types.wrapped Deferred.supplier w r t₁ = .ok z t₁ := by
    obtain ⟨_, ⟨⟩, -, rfl⟩ := Session.makes_of_body body
    exact Types.wrapped_of_resolved resolved
  have made : Action.newWrapper .blank t₁ =
      .ok ⟨t₁.wrappers.size⟩ { t₁ with wrappers := t₁.wrappers.add .blank } := rfl
  obtain ⟨endures, filled⟩ := fill_wrapper extension w (Types.known y)
  have fixed : (Body.wrapper w c).isFixed = true := by
    rw [Body.isFixed, resolved]
    rfl
  have added : t₁.Extends { t₁ with wrappers := t₁.wrappers.add .blank } :=
    (Session.Extends.growth.newWrapper .blank).of_ok made
  have copied := copies.endures endures
  have present := endures _ _ fixed ((added.trans extension).endures _ _ fixed body)
  have kept : (Types.known y).resolved = some y :=
    Types.kept_of_not_isNull (copies.isNull known)
  refine ⟨t₂.putWrapper ⟨t₁.wrappers.size⟩ (Types.known y), ?_, ?_⟩
  · simp only [ofObject]
    rw [Action.bindWith_of_ok (Action.lift_of_ok wrapped),
      Action.bindWith_of_ok (Action.lift_of_ok again),
      Action.bindWith_of_ok (Action.lift_of_ok made),
      Action.bindWith_of_ok (remember_of (.wrapper w r) (.wrapper w ⟨t₁.wrappers.size⟩)),
      Action.bindWith_of_ok inner]
    rfl
  · refine .of_body filled present ⟨rfl, ?_, ?_⟩ ⟨z, resolved, known⟩ ?_
    · rw [kept]
      rfl
    · rw [resolved]
      rfl
    · rw [Body.parts, Body.parts, kept, resolved]
      exact .cons copied .nil

/-- A type that is in the end over a built-in scalar is copied, whatever is observed and built in
the meantime. The induction is on the length of the chain. -/
theorem copyWithin_chain
    (reliable : ∀ u, t.Grows u → ∃ q u',
      Types.unwrapWithin Deferred.supplier k v u = .ok (.scalar q) u' ∧ BuiltIn.isScalar q = true)
    (less : k < N) (clear : Clear t memo v) :
    ∃ y t' new, copyWithin Deferred.supplier N v memo t = .ok (y, new ++ memo) t' ∧
      (∀ p ∈ new, p.1.isWrapper = true) ∧ t'.Replicates y v := by
  have leaf {k : Nat} {v : Value} {t t' : Session} {q : Ref .scalar} {f : Value → Copying Value}
      {memo : Memo} (run : Types.unwrapWithin Deferred.supplier k v t = .ok (.scalar q) t')
      (builtIn : BuiltIn.isScalar q = true) (single : v.isWrapper = false) :
      ∃ y t' new, ofObject Deferred.supplier f v memo t = .ok (y, new ++ memo) t' ∧
        (∀ p ∈ new, p.1.isWrapper = true) ∧ t'.Replicates y v := by
    obtain ⟨rfl, -⟩ := Snapshot.eq_of_unwrapWithin run single
    have atom : (Value.scalar q).isAtom = true := builtIn
    exact ⟨.scalar q, t, [], ofObject_of_isAtom atom memo t, fun _ h => (nomatch h),
      .of_isAtom atom t⟩
  induction N generalizing k v t memo with
  | zero => cases less
  | succ N ih =>
    obtain ⟨q, t', run, builtIn⟩ := reliable t (.refl t)
    rw [copyWithin_of_new (clear.find?_eq_none run builtIn) t]
    cases v with
    | wrapper w r =>
      obtain ⟨k, rfl⟩ : ∃ j, k = j + 1 := by
        cases k with
        | zero => cases run
        | succ k => exact ⟨k, rfl⟩
      obtain ⟨z, t₁, wrapped, rest⟩ := Action.ok_of_bind run
      have known := Snapshot.isNull_of_unwrapWithin rest rfl
      obtain ⟨c, body, resolved⟩ := Snapshot.wrapped_kept wrapped known
      obtain ⟨_, ⟨⟩, -, rfl⟩ := Session.makes_of_body body
      have observed : t.Leads t₁ :=
        ((Later.observed Deferred.supplier.answer).wrapped [] w r).of_ok wrapped
      have made : Action.newWrapper .blank t₁ =
        .ok ⟨t₁.wrappers.size⟩ { t₁ with wrappers := t₁.wrappers.add .blank } := rfl
      have added : t₁.Grows { t₁ with wrappers := t₁.wrappers.add .blank } :=
        .of_keeps (fun R filling => filling.newWrapper .blank) made
      have grown := observed.grows.trans added
      have inside : Inside t₁ (.wrapper w r) z := ⟨w, r, rfl, resolved⟩
      have reliable' : ∀ u, Session.Grows { t₁ with wrappers := t₁.wrappers.add .blank } u →
          ∃ q u', Types.unwrapWithin Deferred.supplier k z u = .ok (.scalar q) u' ∧
            BuiltIn.isScalar q = true := by
        intro u later
        obtain ⟨q, u', run, builtIn⟩ := reliable u (grown.trans later)
        obtain ⟨_, _, ⟨⟩, resolved⟩ := inside.extends (added.trans later).extends
        refine ⟨q, u', ?_, builtIn⟩
        exact (Action.bind_of_ok (Types.wrapped_of_resolved resolved)).symm.trans run
      obtain ⟨y, t₂, new, inner, wrappers, copies⟩ := ih reliable' (by omega)
        (clear.enter grown.extends (inside.extends added.extends) (.wrapper w ⟨t₁.wrappers.size⟩))
      have extension : Session.Extends { t₁ with wrappers := t₁.wrappers.add .blank } t₂ :=
        (Session.Grows.of_keeps (fun R filling => filling.furnishing.copyWithin N z _)
          inner).extends
      obtain ⟨t₃, copied, whole⟩ := ofObject_wrapper wrapped known inner extension copies
      refine ⟨_, t₃, new ++ [(.wrapper w r, .wrapper w ⟨t₁.wrappers.size⟩)], ?_,
        fun p hp => ?_, whole⟩
      · rw [copied, List.append_assoc]
        rfl
      · rcases List.mem_append.1 hp with hp | hp
        · exact wrappers p hp
        · cases List.mem_singleton.1 hp
          rfl
    | _ => exact leaf run builtIn rfl

/-! ### Data in arguments -/

/-- What is remembered in place of data are copies of them. -/
def Kept (t : Session) (memo : Memo) : Prop :=
  ∀ p ∈ memo, p.1.isTyped = false → t.Replicates p.2 p.1

theorem Kept.grows (h : Kept t memo) (grows : t.Grows t') : Kept t' memo :=
  fun p hp untyped => (h p hp untyped).endures grows.extends.endures

theorem ready_self (t : Session) : Ready t [] t where
  agrees := .refl [] t
  foreign h := absurd h List.not_mem_nil
  live h := absurd h List.not_mem_nil

theorem copies_of_firm (agrees : u.Agrees [] t) (nests : u.Nests Session.Plain n v)
    (firm : Firm u [] t x v) : t.Replicates x v where
  like := ⟨n, firm.alike (G := .plain) nests⟩
  nested := ⟨n, nests.sound.endures agrees.endures⟩

theorem Kept.atHand (h : Kept t memo) : AtHand t [] t n memo := by
  intro p hp nests t' later j nested
  obtain ⟨m, like⟩ := (h p hp nests.holds.isTyped_eq).like
  exact (like.endures later.endures).resize (nested.endures later.endures)

theorem isWrapper_of_untyped (h : v.isTyped = false) : v.isWrapper = false := by
  cases v <;> first | rfl | cases h

/-- How the copying of data in an argument ends: with a result, of which something holds, and with
copies of the data that were met. -/
def Copied (t : Session) (memo : Memo) (act : Copying α) (post : Session → α → Prop) : Prop :=
  ∃ a t' later, act memo t = .ok (a, later) t' ∧ t.Grows t' ∧ Kept t' later ∧
    (∀ p ∈ later, p ∈ memo ∨ p.1.isAtom = false ∧ p.1.isTyped = false) ∧ post t' a

theorem Delivers.copied {act : Copying α} {post : List Value → Session → α → Prop}
    {result : Session → α → Prop} (h : Delivers t n act post)
    (kept : ∀ R, Filling R → KeepsWith R act) (known : Kept t memo)
    (weaker : ∀ t' a, t.Agrees [] t' → post [] t' a → result t' a) :
    Copied t memo act result := by
  obtain ⟨a, t', new, run, agrees, made, post⟩ := h.run (ready_self t) known.atHand
  have grows : t.Grows t' := .of_keeps (fun R filling => kept R filling memo) run
  refine ⟨a, t', new ++ memo, run, grows, fun p hp untyped => ?_, fun p hp => ?_,
    weaker t' a agrees post⟩
  · rcases List.mem_append.1 hp with hp | hp
    · exact copies_of_firm agrees (made p hp).nests (made p hp).firm
    · exact known.grows grows p hp untyped
  · exact (List.mem_append.1 hp).symm.imp_right fun hp =>
      ⟨(made p hp).object, (made p hp).nests.holds.isTyped_eq⟩

section

variable (known : Kept t memo) (le : n ≤ N)

include known le

theorem copied_part {o : Option Value} (nests : ∀ x ∈ o.toList, t.Nests Session.Plain n x) :
    Copied t memo (part (copyWithin Deferred.supplier N) o) fun t' o' =>
      List.Forall₂ t'.Replicates o'.toList o.toList :=
  (delivers_part fun x hx => delivers_plain (nests x hx) le).copied
    (fun _ filling => filling.furnishing.copyPart (filling.furnishing.copyWithin N) o) known
    fun _ _ agrees firms => Snapshot.forall₂_of_mem firms fun _ x hx =>
      copies_of_firm agrees (nests x hx)

theorem copied_attributes {as : Attributes}
    (nests : ∀ x ∈ as.contents, t.Nests Session.Plain n x) :
    Copied t memo (attributes (copyWithin Deferred.supplier N) as) fun t' bs =>
      List.Forall₂ t'.Replicates bs.contents as.contents :=
  (delivers_attributes fun x hx => delivers_plain (nests x hx) le).copied
    (fun _ filling => filling.furnishing.copyAttributes (filling.furnishing.copyWithin N) as) known
    fun _ _ agrees firms => Snapshot.forall₂_of_mem firms fun _ x hx =>
      copies_of_firm agrees (nests x hx)

end

/-! ### Arguments -/

/-- An argument over copies of what another one holds is a copy of it. -/
theorem copies_argument {q q' : Ref .argument} {c c' : Argument}
    (left : t.body? (.argument q') = some (.argument c'))
    (right : t.body? (.argument q) = some (.argument c)) (complete : c.Complete)
    (resolved : c.resolved = some z) (known : z.isNull = false)
    (name : List.Forall₂ t.Replicates c'.name.toList c.name.toList)
    (description : List.Forall₂ t.Replicates c'.description.toList c.description.toList)
    (hasDefault : List.Forall₂ t.Replicates c'.hasDefault.toList c.hasDefault.toList)
    (default : List.Forall₂ t.Replicates c'.default.toList c.default.toList)
    (type : t.Replicates y z) (kept : c'.resolved = Types.kept y)
    (extra : List.Forall₂ t.Replicates c'.extra.contents c.extra.contents) :
    t.Replicates (.argument q') (.argument q) := by
  rw [Types.kept_of_not_isNull (type.isNull known)] at kept
  have types : List.Forall₂ t.Replicates c'.resolved.toList c.resolved.toList := by
    rw [kept, resolved]
    exact .cons type .nil
  refine .of_body left right ⟨⟨?_, ?_, ?_, ?_⟩, complete, Snapshot.isSome_of_related default⟩
    ⟨complete, z, resolved, known⟩ ?_
  · exact (Snapshot.isSome_of_related name).trans complete.name
  · exact (Snapshot.isSome_of_related description).trans complete.description
  · exact (Snapshot.isSome_of_related hasDefault).trans complete.hasDefault
  · rw [kept]
    rfl
  · exact List.rel_append (List.rel_append (List.rel_append (List.rel_append
      (List.rel_append name description) hasDefault) types) default) extra

/-- The fields of an argument that come before its type are copied one after the other. -/
theorem copied_fields {c : Argument} (known : Kept t memo)
    (nests : ∀ x ∈ c.data, t.Nests Session.Plain n x) (le : n ≤ N) :
    ∃ name description hasDefault default t' later,
      (∀ rest : Option Value → Option Value → Option Value → Option Value → Copying α, (do
        let name ← part (copyWithin Deferred.supplier N) c.name
        let description ← part (copyWithin Deferred.supplier N) c.description
        let hasDefault ← part (copyWithin Deferred.supplier N) c.hasDefault
        let default ← part (copyWithin Deferred.supplier N) c.default
        rest name description hasDefault default) memo t =
          rest name description hasDefault default later t') ∧
      t.Grows t' ∧ Kept t' later ∧
      (∀ p ∈ later, p ∈ memo ∨ p.1.isAtom = false ∧ p.1.isTyped = false) ∧
      List.Forall₂ t'.Replicates name.toList c.name.toList ∧
      List.Forall₂ t'.Replicates description.toList c.description.toList ∧
      List.Forall₂ t'.Replicates hasDefault.toList c.hasDefault.toList ∧
      List.Forall₂ t'.Replicates default.toList c.default.toList := by
  simp only [Argument.data, List.mem_append] at nests
  obtain ⟨name, t₁, m₁, run₁, l₁, k₁, o₁, copies₁⟩ := copied_part (o := c.name) known le
    fun x hx => nests x (.inl (.inl (.inl (.inl hx))))
  obtain ⟨description, t₂, m₂, run₂, l₂, k₂, o₂, copies₂⟩ := copied_part (o := c.description) k₁ le
    fun x hx => l₁.extends.plain (nests x (.inl (.inl (.inl (.inr hx)))))
  obtain ⟨hasDefault, t₃, m₃, run₃, l₃, k₃, o₃, copies₃⟩ := copied_part (o := c.hasDefault) k₂ le
    fun x hx => (l₁.trans l₂).extends.plain (nests x (.inl (.inl (.inr hx))))
  obtain ⟨default, t₄, m₄, run₄, l₄, k₄, o₄, copies₄⟩ := copied_part (o := c.default) k₃ le
    fun x hx => ((l₁.trans l₂).trans l₃).extends.plain (nests x (.inl (.inr hx)))
  have last {t : Session} (grows : t.Grows t₄) {o o' : Option Value}
      (copies : List.Forall₂ t.Replicates o'.toList o.toList) :
      List.Forall₂ t₄.Replicates o'.toList o.toList :=
    copies.imp fun _ _ copy => copy.endures grows.extends.endures
  refine ⟨name, description, hasDefault, default, t₄, m₄, fun rest => ?_,
    ((l₁.trans l₂).trans l₃).trans l₄, k₄, fun p hp => ?_, last ((l₂.trans l₃).trans l₄) copies₁,
    last (l₃.trans l₄) copies₂, last l₄ copies₃, copies₄⟩
  · rw [Action.bindWith_of_ok run₁, Action.bindWith_of_ok run₂, Action.bindWith_of_ok run₃,
      Action.bindWith_of_ok run₄]
  · rcases o₄ p hp with hp | new
    · rcases o₃ p hp with hp | new
      · rcases o₂ p hp with hp | new
        · exact o₁ p hp
        · exact .inr new
      · exact .inr new
    · exact .inr new

/-- What an argument holds is copied, its type after its data. -/
theorem copied_content {c : Argument} (known : Kept t memo)
    (apart : ∀ p ∈ memo, p.1.isAtom = false ∧ p.1.isWrapper = false)
    (nests : ∀ x ∈ c.data, t.Nests Session.Plain n x) (le : n ≤ N)
    (reliable : ∀ u, t.Grows u → ∃ q u',
      Types.unwrapWithin Deferred.supplier k z u = .ok (.scalar q) u' ∧ BuiltIn.isScalar q = true)
    (less : k < N) :
    ∃ name description hasDefault default type extra t' later,
      (∀ rest : Option Value → Option Value → Option Value → Option Value → Value → Attributes →
          Copying Value, (do
        let name ← part (copyWithin Deferred.supplier N) c.name
        let description ← part (copyWithin Deferred.supplier N) c.description
        let hasDefault ← part (copyWithin Deferred.supplier N) c.hasDefault
        let default ← part (copyWithin Deferred.supplier N) c.default
        let type ← copyWithin Deferred.supplier N z
        let extra ← attributes (copyWithin Deferred.supplier N) c.extra
        rest name description hasDefault default type extra) memo t =
          rest name description hasDefault default type extra later t') ∧
      t.Grows t' ∧ List.Forall₂ t'.Replicates name.toList c.name.toList ∧
      List.Forall₂ t'.Replicates description.toList c.description.toList ∧
      List.Forall₂ t'.Replicates hasDefault.toList c.hasDefault.toList ∧
      List.Forall₂ t'.Replicates default.toList c.default.toList ∧ t'.Replicates type z ∧
      List.Forall₂ t'.Replicates extra.contents c.extra.contents := by
  obtain ⟨name, description, hasDefault, default, t₁, m₁, fields, l₁, k₁, o₁, copies₁, copies₂,
    copies₃, copies₄⟩ := copied_fields known nests le
  have clear : Clear t₁ m₁ z := by
    intro p hp
    have single : p.1.isAtom = false ∧ p.1.isWrapper = false :=
      (o₁ p hp).elim (apart p) fun new => ⟨new.1, isWrapper_of_untyped new.2⟩
    refine ⟨single.1, fun wraps => ?_⟩
    rw [single.2] at wraps
    cases wraps
  obtain ⟨type, t₂, new, run₂, wrappers, copies₅⟩ :=
    copyWithin_chain (fun u later => reliable u (l₁.trans later)) less clear
  have l₂ : t₁.Grows t₂ :=
    .of_keeps (fun R filling => filling.furnishing.copyWithin N z m₁) run₂
  have k₂ : Kept t₂ (new ++ m₁) := by
    intro p hp untyped
    rcases List.mem_append.1 hp with hp | hp
    · have wraps := wrappers p hp
      rw [isWrapper_of_untyped untyped] at wraps
      cases wraps
    · exact k₁.grows l₂ p hp untyped
  obtain ⟨extra, t₃, m₃, run₃, l₃, -, -, copies₆⟩ := copied_attributes k₂ le
    fun x hx => (l₁.trans l₂).extends.plain (nests x (List.mem_append_right _ hx))
  have last {o o' : Option Value} (copies : List.Forall₂ t₁.Replicates o'.toList o.toList) :
      List.Forall₂ t₃.Replicates o'.toList o.toList :=
    copies.imp fun _ _ copy => copy.endures (l₂.trans l₃).extends.endures
  refine ⟨name, description, hasDefault, default, type, extra, t₃, m₃, fun rest => ?_,
    (l₁.trans l₂).trans l₃, last copies₁, last copies₂, last copies₃, last copies₄,
    copies₅.endures l₃.extends.endures, copies₆⟩
  rw [fields fun name description hasDefault default => do
    let type ← copyWithin Deferred.supplier N z
    let extra ← attributes (copyWithin Deferred.supplier N) c.extra
    rest name description hasDefault default type extra]
  rw [Action.bindWith_of_ok run₂, Action.bindWith_of_ok run₃]

/-- An argument is copied if it holds plain data, and if its type is in the end over a built-in
scalar, whatever is observed and built in the meantime. -/
theorem ofObject_argument {q : Ref .argument} (live : q.index < s.arguments.size)
    (plain : PlainArgument s (s.argument q)) (reliable : s.Reliable (.argument q))
    (room : s.extent ≤ N) (room' : s.reach + 1 < N) :
    ∃ y t memo, ofObject Deferred.supplier (copyWithin Deferred.supplier N) (.argument q) [] s =
      .ok (y, memo) t ∧ t.Replicates y (.argument q) := by
  obtain ⟨b, u, run, builtIn⟩ := reliable s (.refl s)
  obtain ⟨z, s₁, typed, rest⟩ := Action.ok_of_bind run
  replace typed : Arguments.type Deferred.supplier q s = .ok z s₁ := typed
  have known := Snapshot.isNull_of_unwrapWithin rest rfl
  obtain ⟨c, body, resolved⟩ := Snapshot.type_kept live typed known
  obtain ⟨_, ⟨⟩, -, rfl⟩ := Session.makes_of_body body
  have observed : s.Leads s₁ :=
    ((Later.observed Deferred.supplier.answer).type [] q).of_ok typed
  have settles : (s.argument q).Settles (s₁.argument q) := observed.extends.argument live
  have complete : (s₁.argument q).Complete := ⟨settles.name ▸ plain.name,
    settles.description ▸ plain.description, settles.hasDefault ▸ plain.hasDefault, by
      rw [resolved]; rfl⟩
  obtain ⟨t, opened⟩ : ∃ t, t = { s₁ with arguments := s₁.arguments.add .blank } := ⟨_, rfl⟩
  have made : Action.newArgument .blank s₁ = .ok ⟨s₁.arguments.size⟩ t := opened ▸ rfl
  have added : s₁.Grows t := .of_keeps (fun R filling => filling.newArgument .blank) made
  have whole : s.Grows t := observed.grows.trans added
  have present {u : Session} (later : t.Grows u) : u.body? (.argument q) =
      some (.argument (s₁.argument q)) :=
    (added.trans later).extends.endures _ _ complete.isFixed body
  have nests : ∀ x ∈ (s₁.argument q).data, t.Nests Session.Plain s.extent x := by
    intro x hx
    rw [settles.data] at hx
    obtain ⟨n, nests⟩ := plain.plain hx
    have among := s.mem_contents_of_argument live (Argument.data_subset _ hx)
    exact whole.extends.plain (nests.extent (Value.depth_le_depths among))
  have reliable' : ∀ u, t.Grows u → ∃ b u', Types.unwrapWithin Deferred.supplier (s.reach + 1) z u =
      .ok (.scalar b) u' ∧ BuiltIn.isScalar b = true := by
    intro u later
    obtain ⟨b, u', run, builtIn⟩ := reliable u (whole.trans later)
    refine ⟨b, u', ?_, builtIn⟩
    obtain ⟨_, ⟨⟩, -, same⟩ := Session.makes_of_body (present later)
    rw [← same] at resolved
    exact (Action.bind_of_ok (Arguments.type_of_resolved resolved)).symm.trans run
  have start : Kept t [(.argument q, .argument ⟨s₁.arguments.size⟩)] := by
    intro p hp untyped
    cases List.mem_singleton.1 hp
    cases untyped
  have apart : ∀ p ∈ [(Value.argument q, Value.argument ⟨s₁.arguments.size⟩)],
      p.1.isAtom = false ∧ p.1.isWrapper = false := by
    intro p hp
    cases List.mem_singleton.1 hp
    exact ⟨rfl, rfl⟩
  obtain ⟨name, description, hasDefault, default, type, extra, t', later, content, grown, copies₁,
    copies₂, copies₃, copies₄, copies₅, copies₆⟩ :=
    copied_content start apart nests room reliable' room'
  obtain ⟨endures, filled⟩ := fill_argument (opened ▸ grown.extends)
    { name, description, hasDefault, default, source := type, resolved := Types.kept type, extra }
  have last {xs ys : List Value} (copies : List.Forall₂ t'.Replicates xs ys) :=
    copies.imp fun _ _ copy => copy.endures endures
  refine ⟨_, _, later, ?_, copies_argument filled (endures _ _ complete.isFixed (present grown))
    complete resolved known (last copies₁) (last copies₂) (last copies₃) (last copies₄)
    (copies₅.endures endures) rfl (last copies₆)⟩
  have read : (getThe Session : Copying Session) [] s₁ = .ok (s₁, []) s₁ := rfl
  simp only [ofObject]
  rw [Action.bindWith_of_ok (Action.lift_of_ok typed), Action.bindWith_of_ok read,
    Action.bindWith_of_ok (Action.lift_of_ok made),
    Action.bindWith_of_ok (remember_of (.argument q) (.argument ⟨s₁.arguments.size⟩)),
    content fun name description hasDefault default type extra => do
      modifyThe Session fun s => s.putArgument ⟨s₁.arguments.size⟩
        { name, description, hasDefault, default, source := type, resolved := Types.kept type,
          extra }
      return .argument ⟨s₁.arguments.size⟩]
  rfl

/-! ### Copies that are made -/

theorem copy_of_copyWithin (flat : v.depth = 0)
    (run : copyWithin Deferred.supplier ((s.reach + 1) * (s.reach + 1)) v [] s = .ok (y, memo) t) :
    copy Deferred.supplier v s = .ok y t := by
  have room : (s.reach + v.depth + 1) * (s.reach + v.depth + 1) =
      (s.reach + 1) * (s.reach + 1) := by rw [flat]
  rw [← room] at run
  exact (Action.bind_of_ok (f := fun p => pure p.1) run).trans rfl

theorem copy_of_reliable (copyable : s.Copyable x) (reliable : s.Reliable x) :
    ∃ y t, copy Deferred.supplier x s = .ok y t ∧ t.Replicates y x := by
  have few := s.objects_add_depth_le_reach
  cases copyable with
  | @wrapper w r live =>
    have room := s.room_for_chain (by omega)
    have clear : Clear s [] (.wrapper w r) := fun p hp => nomatch hp
    obtain ⟨y, t, new, run, -, copies⟩ :=
      copyWithin_chain (k := s.reach + 2) (v := .wrapper w r) reliable room clear
    exact ⟨y, t, copy_of_copyWithin rfl run, copies⟩
  | @argument q live plain =>
    have room := s.room_for_chain (by omega)
    have extent := s.extent_add_one_le live
    obtain ⟨N, bound⟩ : ∃ N, (s.reach + 1) * (s.reach + 1) = N + 1 :=
      ⟨_, (Nat.sub_add_cancel (by omega)).symm⟩
    obtain ⟨y, t, memo, run, copies⟩ :=
      ofObject_argument live plain reliable (N := N) (by omega) (by omega)
    have whole : copyWithin Deferred.supplier (N + 1) (.argument q) [] s = .ok (y, memo) t :=
      (copyWithin_of_new rfl s).trans run
    exact ⟨y, t, copy_of_copyWithin rfl (bound ▸ whole), copies⟩

end DirectiveSchema.DeepCopy

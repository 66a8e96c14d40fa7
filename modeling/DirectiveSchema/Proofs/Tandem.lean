import DirectiveSchema.Proofs.ArgumentMap
import DirectiveSchema.Proofs.Pairing

/-!
Two actions in tandem. Each runs in a session of its own, and what they return is paired. To
evaluate an expression twice is to build the same twice, since what is built is paired as it is
added. Where no data are looked at but literals, this takes nothing else.
-/
namespace DirectiveSchema

/-- Classes of pairs of actions, from a pairing to what holds of their results in a larger one. -/
abbrev PairClass := {α β : Type} → Pairing → Action α → Action β → (Pairing → α → β → Prop) → Prop

namespace Pairing

/-- Sets of paired elements, in order. -/
abbrev RelatesSets (φ : Pairing) (ms ms' : List Member) : Prop :=
  List.Forall₂ φ.RelatesMembers ms ms'

/-- Dictionaries of paired entries, in order. -/
abbrev RelatesDicts (φ : Pairing) (es es' : List Entry) : Prop :=
  List.Forall₂ φ.RelatesEntries es es'

/-- Keys and values that are paired one by one. -/
abbrev RelatesAssignments (φ : Pairing) (ps qs : List (Value × Value)) : Prop :=
  List.Forall₂ (fun p q => φ.Relates p.1 q.1 ∧ φ.Relates p.2 q.2) ps qs

theorem RelatesAssignments.mono {φ ψ : Pairing} {ps qs : List (Value × Value)} (le : φ ≤ ψ)
    (h : φ.RelatesAssignments ps qs) : ψ.RelatesAssignments ps qs :=
  List.Forall₂.imp (fun _ _ related => ⟨related.1.mono le, related.2.mono le⟩) h

/-- References to paired cells. -/
def RelatesRefs {k : CellKind} (φ : Pairing) (r r' : Ref k) : Prop := φ (some k) r.index r'.index

def RelatesRows (φ : Pairing) (r r' : Row) : Prop := φ.Relates r.value r'.value

end Pairing

open Pairing

variable {P : PairClass} {φ ψ : Pairing} {supply supply' : Supplier}

/-- A class of pairs of actions that add the same to two sessions. -/
structure Tandem (P : PairClass) : Prop where
  pure {α β : Type} {φ : Pairing} {post : Pairing → α → β → Prop} {a : α} {b : β} :
    post φ a b → P φ (pure a) (pure b) post
  throw {α β : Type} {φ : Pairing} {post : Pairing → α → β → Prop} {e : Fault} :
    e.IsPlain → P φ (throw e) (throw e) post
  bind {α β α' β' : Type} {φ : Pairing} {mid : Pairing → α → β → Prop}
    {post : Pairing → α' → β' → Prop} {x : Action α} {y : Action β} {f : α → Action α'}
    {g : β → Action β'} : P φ x y mid →
      (∀ {ψ a b}, φ ≤ ψ → mid ψ a b → P ψ (f a) (g b) post) → P φ (x >>= f) (y >>= g) post
  emptyRow {φ : Pairing} : P φ (Action.newRow []) (Action.newRow []) RelatesRows
  freshTag {φ : Pairing} : P φ Action.freshTag Action.freshTag fun ψ a b => ψ none a b
  newCell {φ : Pairing} {c c' : Cell} : φ.RelatesCells c c' → c'.resolved? = none →
    P φ (Action.newCell c) (Action.newCell c') fun ψ i j => ψ (some c.kind) i j
  lookup {φ : Pairing} (name : String) :
    P φ (Expression.lookup name) (Expression.lookup name) Relates

/-- A class of pairs of actions that compare, hash and write data alike. -/
structure Comparing (P : PairClass) (supply supply' : Supplier) : Prop where
  distinct {φ : Pairing} {vs ws : List Value} : φ.RelatesAll vs ws →
    P φ (Container.distinct supply vs) (Container.distinct supply' ws) RelatesSets
  dictionary {φ : Pairing} {ps qs : List (Value × Value)} : φ.RelatesAssignments ps qs →
    P φ (Container.dictionary supply ps) (Container.dictionary supply' qs) RelatesDicts
  create {φ : Pairing} {name name' locations locations' args args' description description' :
    Value} : φ.Relates name name' → φ.Relates locations locations' → φ.Relates args args' →
      φ.Relates description description' →
        P φ (Directives.create supply name locations args description)
          (Directives.create supply' name' locations' args' description') RelatesRefs

/-! ### Literals -/

/-- An atom that has no identity. -/
structure Value.IsLiteral (v : Value) : Prop where
  atom : v.isAtom = true
  plain : v.isScalar = false

namespace Value.IsLiteral

variable {u v : Value} {s : Session}

theorem relates (h : v.IsLiteral) (φ : Pairing) : φ.Relates v v := by
  obtain ⟨atom, plain⟩ := h
  cases v with
  | null => exact .null
  | unnamed => exact .unnamed
  | bool b => exact .bool b
  | int n => exact .int n
  | float x => exact .float (by simpa [Value.isAtom] using atom)
  | text s => exact .text s
  | bytes bs => exact .bytes bs
  | location l => exact .location l
  | scalar => cases plain
  | _ => cases atom

/-- A literal is paired with nothing but itself. -/
theorem unique (h : u.IsLiteral) (related : φ.Relates u v) : v = u := by
  obtain ⟨atom, plain⟩ := h
  cases related with
  | null | unnamed | bool | int | text | bytes | location | float => rfl
  | scalar => cases plain
  | _ => cases atom

/-- A literal has a key without identities, in every session. -/
theorem key (h : v.IsLiteral) :
    ∃ k, (∀ φ : Pairing, φ.RelatesKeys k k) ∧ ∀ supply, HashKey.of supply v = pure k := by
  have known : ∃ k, (∀ φ : Pairing, φ.RelatesKeys k k) ∧ v.key? = some k := by
    obtain ⟨atom, plain⟩ := h
    cases v with
    | null => exact ⟨_, fun _ => .null, rfl⟩
    | unnamed => exact ⟨_, fun _ => .unnamed, rfl⟩
    | bool b => exact ⟨_, fun _ => .integer _, rfl⟩
    | int n => exact ⟨_, fun _ => .integer _, rfl⟩
    | float x => exact ⟨_, fun _ => .float (by simpa [Value.isAtom] using atom), rfl⟩
    | text s => exact ⟨_, fun _ => .text _, rfl⟩
    | bytes bs => exact ⟨_, fun _ => .bytes _, rfl⟩
    | location l => exact ⟨_, fun _ => .text _, rfl⟩
    | scalar => cases plain
    | _ => cases atom
  obtain ⟨k, same, known⟩ := known
  exact ⟨k, same, fun supply => funext fun s => HashKey.of_key known⟩

/-- Whether literals are found equal depends on nothing else. -/
theorem hit (h : u.IsLiteral) (h' : v.IsLiteral) (a b : HashKey) :
    ∃ found, ∀ supply, Equality.hit (Equality.equal supply) a u b v = pure found := by
  have equal (supply : Supplier) : Equality.equal supply u v = pure (Equality.atomsEqual u v) :=
    funext fun s => Access.equal_of_isAtom supply h.atom h'.atom
  by_cases same : a = b
  · by_cases identical : u.same v = true
    · exact ⟨true, fun supply => by
        rw [Equality.hit, if_pos same, Equality.element, if_pos identical]⟩
    · refine ⟨Equality.atomsEqual u v, fun supply => ?_⟩
      rw [Equality.hit, if_pos same, Equality.element, if_neg identical, equal supply]
  · exact ⟨false, fun supply => by rw [Equality.hit, if_neg same]⟩

end Value.IsLiteral

theorem Expression.isLiteral_of_literal? {e : Expression} {v : Value} (h : e.literal? = some v) :
    v.IsLiteral ∧ ∀ supply, e.eval supply = pure v := by
  cases e with
  | float x =>
    cases x with
    | nan => cases h
    | infinite | finite =>
      cases h
      exact ⟨⟨rfl, rfl⟩, fun _ => rfl⟩
  | null | bool | int | text | bytes | location =>
    cases h
    exact ⟨⟨rfl, rfl⟩, fun _ => rfl⟩
  | _ => cases h

theorem evalAll_literal {es : List Expression}
    (literal : es.all (fun e => e.literal?.isSome) = true) :
    ∃ vs, (∀ v ∈ vs, v.IsLiteral) ∧ ∀ supply, evalAll supply es = pure vs := by
  induction es with
  | nil => exact ⟨[], fun _ hv => absurd hv List.not_mem_nil, fun _ => rfl⟩
  | cons e es ih =>
    simp only [List.all_cons, Bool.and_eq_true] at literal
    obtain ⟨v, found⟩ := Option.isSome_iff_exists.1 literal.1
    obtain ⟨first, run⟩ := Expression.isLiteral_of_literal? found
    obtain ⟨vs, all, rest⟩ := ih literal.2
    refine ⟨v :: vs, fun u hu => ?_, fun supply => ?_⟩
    · rcases List.mem_cons.1 hu with rfl | hu
      · exact first
      · exact all u hu
    · rw [evalAll, run, pure_bind, rest, pure_bind]

namespace Container

/-- Literal elements under keys without identities. -/
def AreLiterals (ms : List Member) : Prop :=
  ∀ m ∈ ms, m.value.IsLiteral ∧ ∀ φ : Pairing, φ.RelatesKeys m.hash m.hash

theorem AreLiterals.relates {ms : List Member} (h : AreLiterals ms) (φ : Pairing) :
    φ.RelatesSets ms ms :=
  List.forall₂_same.2 fun m hm => ⟨(h m hm).2 φ, (h m hm).1.relates φ⟩

theorem holds_literal {m : Member} {ms : List Member} (literals : AreLiterals ms)
    (literal : m.value.IsLiteral) :
    ∃ found, ∀ supply, Equality.holds (Equality.equal supply) m ms = pure found := by
  induction ms with
  | nil => exact ⟨false, fun _ => rfl⟩
  | cons u ms ih =>
    obtain ⟨rest, others⟩ := ih fun m hm => literals m (List.mem_cons_of_mem _ hm)
    obtain ⟨first, found⟩ := (literals u List.mem_cons_self).1.hit literal u.hash m.hash
    cases first with
    | true => exact ⟨true, fun supply => by rw [Equality.holds, found, pure_bind]; rfl⟩
    | false => exact ⟨rest, fun supply => by rw [Equality.holds, found, pure_bind, others]; rfl⟩

theorem addMember_literal {v : Value} {ms : List Member} (literals : AreLiterals ms)
    (literal : v.IsLiteral) :
    ∃ ms', AreLiterals ms' ∧ ∀ supply, addMember supply ms v = pure ms' := by
  obtain ⟨k, same, hash⟩ := literal.key
  obtain ⟨found, held⟩ := holds_literal (m := ⟨k, v⟩) literals literal
  have run (supply : Supplier) :
      addMember supply ms v = if found then pure ms else pure (ms ++ [⟨k, v⟩]) := by
    simp only [addMember, hash, held, pure_bind]
  cases found with
  | true => exact ⟨ms, literals, run⟩
  | false =>
    refine ⟨ms ++ [⟨k, v⟩], fun m hm => ?_, run⟩
    rcases List.mem_append.1 hm with hm | hm
    · exact literals m hm
    · cases List.mem_singleton.1 hm
      exact ⟨literal, same⟩

/-- Literals are gathered without looking at anything. -/
theorem distinct_literal {vs : List Value} (literal : ∀ v ∈ vs, v.IsLiteral) :
    ∃ ms, AreLiterals ms ∧ ∀ supply, distinct supply vs = pure ms := by
  suffices general : ∀ done, AreLiterals done →
      ∃ ms, AreLiterals ms ∧ ∀ supply, vs.foldlM (addMember supply) done = pure ms from
    general [] fun _ hm => absurd hm List.not_mem_nil
  induction vs with
  | nil => exact fun done literals => ⟨done, literals, fun _ => rfl⟩
  | cons v vs ih =>
    intro done literals
    obtain ⟨next, literals', run⟩ := addMember_literal literals (literal v List.mem_cons_self)
    obtain ⟨ms, all, rest⟩ := ih (fun v hv => literal v (List.mem_cons_of_mem _ hv)) next literals'
    exact ⟨ms, all, fun supply => by rw [List.foldlM_cons, run, pure_bind, rest]⟩

/-- Paired entries under the same literal keys. -/
structure SharesLiteral (φ : Pairing) (e e' : Entry) : Prop extends φ.RelatesEntries e e' where
  literal : e.key.IsLiteral
  same : e'.key = e.key ∧ e'.hash = e.hash

theorem put_literal {k : HashKey} {v x x' : Value} {es es' : List Entry}
    (shared : List.Forall₂ (SharesLiteral φ) es es') (literal : v.IsLiteral)
    (key : φ.RelatesKeys k k) (related : φ.Relates x x') :
    ∃ fs fs', List.Forall₂ (SharesLiteral φ) fs fs' ∧
      (∀ supply, put supply ⟨k, v, x⟩ es = pure fs) ∧
      ∀ supply, put supply ⟨k, v, x'⟩ es' = pure fs' := by
  induction shared with
  | nil =>
    refine ⟨[⟨k, v, x⟩], [⟨k, v, x'⟩], .cons ?_ .nil, fun _ => rfl, fun _ => rfl⟩
    exact ⟨⟨key, literal.relates φ, related⟩, literal, rfl, rfl⟩
  | @cons e e' es es' first rest ih =>
    obtain ⟨found, hit⟩ := first.literal.hit literal e.hash k
    obtain ⟨fs, fs', shared, run, run'⟩ := ih
    cases found with
    | true =>
      refine ⟨{ e with value := x } :: es, { e' with value := x' } :: es', .cons ?_ rest,
        fun supply => ?_, fun supply => ?_⟩
      · exact ⟨{ first.toRelatesEntries with value := related }, first.literal, first.same⟩
      · rw [put, hit, pure_bind]
        rfl
      · rw [put, first.same.1, first.same.2, hit, pure_bind]
        rfl
    | false =>
      refine ⟨e :: fs, e' :: fs', .cons first shared, fun supply => ?_, fun supply => ?_⟩
      · rw [put, hit, pure_bind]
        exact congrArg (· >>= fun es => pure (e :: es)) (run supply)
      · rw [put, first.same.1, first.same.2, hit, pure_bind]
        exact congrArg (· >>= fun es => pure (e' :: es)) (run' supply)

/-- Entries under literal keys are gathered without looking at anything. -/
theorem dictionary_literal {ps qs : List (Value × Value)} (related : φ.RelatesAssignments ps qs)
    (literal : ∀ p ∈ ps, p.1.IsLiteral) :
    ∃ es es', φ.RelatesDicts es es' ∧ (∀ supply, dictionary supply ps = pure es) ∧
      ∀ supply, dictionary supply qs = pure es' := by
  suffices general : ∀ done done', List.Forall₂ (SharesLiteral φ) done done' →
      ∃ es es', List.Forall₂ (SharesLiteral φ) es es' ∧
        (∀ supply, ps.foldlM (fun es p => assign supply es p.1 p.2) done = pure es) ∧
        ∀ supply, qs.foldlM (fun es p => assign supply es p.1 p.2) done' = pure es' by
    obtain ⟨es, es', shared, run, run'⟩ := general [] [] .nil
    exact ⟨es, es', shared.imp fun _ _ h => h.toRelatesEntries, run, run'⟩
  induction related with
  | nil => exact fun done done' shared => ⟨done, done', shared, fun _ => rfl, fun _ => rfl⟩
  | @cons p q ps qs first _ ih =>
    intro done done' shared
    have here := literal p List.mem_cons_self
    obtain ⟨k, same, hash⟩ := here.key
    obtain ⟨next, next', shared', run, run'⟩ := put_literal shared here (same φ) first.2
    obtain ⟨es, es', all, rest, rest'⟩ :=
      ih (fun p hp => literal p (List.mem_cons_of_mem _ hp)) next next' shared'
    have sameKey : q.1 = p.1 := here.unique first.1
    refine ⟨es, es', all, fun supply => ?_, fun supply => ?_⟩
    · rw [List.foldlM_cons, assign, hash, pure_bind, run, pure_bind, rest]
    · rw [List.foldlM_cons, assign, sameKey, hash, pure_bind, run', pure_bind, rest']

end Container

/-! ### Evaluation in tandem -/

namespace Tandem

section

variable (h : Tandem P)

include h

/-- What is returned at once changes nothing of what holds of the results. -/
theorem map {α β α' β' : Type} {mid : Pairing → α → β → Prop} {post : Pairing → α' → β' → Prop}
    {x : Action α} {y : Action β} {f : α → α'} {g : β → β'} (first : P φ x y mid)
    (rest : ∀ {ψ a b}, φ ≤ ψ → mid ψ a b → post ψ (f a) (g b)) :
    P φ (do return f (← x)) (do return g (← y)) post :=
  h.bind first fun le related => h.pure (rest le related)

theorem weaken {α β : Type} {mid post : Pairing → α → β → Prop} {x : Action α} {y : Action β}
    (first : P φ x y mid) (rest : ∀ {ψ a b}, φ ≤ ψ → mid ψ a b → post ψ a b) : P φ x y post := by
  have same := h.bind first fun le related => h.pure (rest le related)
  rwa [bind_pure, bind_pure] at same

/-- Nothing follows a fault. -/
theorem throwFirst {α β α' β' : Type} {post : Pairing → α' → β' → Prop} {e : Fault}
    {rest : α → Action α'} {rest' : β → Action β'} (plain : e.IsPlain) :
    P φ (MonadExcept.throw e >>= rest) (MonadExcept.throw e >>= rest') post :=
  h.throw plain

theorem newRow {vs ws : List Value} (related : φ.RelatesAll vs ws) :
    P φ (Action.newRow vs) (Action.newRow ws) RelatesRows := by
  cases related with
  | nil => exact h.emptyRow
  | cons first rest =>
    refine h.map h.freshTag fun {ψ _ _} le tag => ?_
    exact Relates.tuple_iff.2 ⟨tag, RelatesAll.mono le (.cons first rest)⟩

/-- A new cell, referred to. -/
theorem newRef {k : CellKind} {c c' : Cell} (cells : φ.RelatesCells c c')
    (unresolved : c'.resolved? = none)
    (kind : c.kind = k) :
    P φ (do return (⟨← Action.newCell c⟩ : Ref k)) (do return (⟨← Action.newCell c'⟩ : Ref k))
      RelatesRefs :=
  h.map (h.newCell cells unresolved) fun _ cell => kind ▸ cell

theorem newList {vs ws : List Value} (related : φ.RelatesAll vs ws) :
    P φ (Action.newList vs) (Action.newList ws) RelatesRefs :=
  h.newRef (c := .list vs) (.list related) rfl rfl

theorem newSet {ms ms' : List Member} (related : φ.RelatesSets ms ms') :
    P φ (Action.newSet ms) (Action.newSet ms') RelatesRefs :=
  h.newRef (c := .set ms) (.set related) rfl rfl

theorem newDict {es es' : List Entry} (related : φ.RelatesDicts es es') :
    P φ (Action.newDict es) (Action.newDict es') RelatesRefs :=
  h.newRef (c := .dict es) (.dict related) rfl rfl

theorem newNamedType {c c' : NamedType} (related : φ.RelatesNamed c c') :
    P φ (Action.newNamedType c) (Action.newNamedType c') RelatesRefs :=
  h.newRef (c := .named c) (.named related) rfl rfl

theorem newScalar {c c' : ScalarType} (related : φ.RelatesScalars c c') :
    P φ (Action.newScalar c) (Action.newScalar c') RelatesRefs :=
  h.newRef (c := .scalar c) (.scalar related) rfl rfl

theorem newWrapper {c c' : WrappingType} (related : φ.RelatesWrappers c c')
    (unresolved : c'.resolved = none) :
    P φ (Action.newWrapper c) (Action.newWrapper c') RelatesRefs :=
  h.newRef (c := .wrapper c) (.wrapper related) unresolved rfl

theorem newArgument {c c' : Argument} (related : φ.RelatesArguments c c')
    (unresolved : c'.resolved = none) :
    P φ (Action.newArgument c) (Action.newArgument c') RelatesRefs :=
  h.newRef (c := .argument c) (.argument related) unresolved rfl

theorem newDirective {c c' : Directive} (related : φ.RelatesDirectives c c') :
    P φ (Action.newDirective c) (Action.newDirective c') RelatesRefs :=
  h.newRef (c := .directive c) (.directive related) rfl rfl

theorem wrap (w : Wrapper) {v v' : Value} (related : φ.Relates v v') :
    P φ (Types.wrap w v) (Types.wrap w v') Relates := by
  simp only [Types.wrap, related.isNonNull_eq]
  split
  · exact h.throwFirst (.inl rfl)
  · exact h.map (h.newWrapper ⟨.some related, .none _, .nil⟩ rfl)
      fun _ cell => .wrapper w cell

theorem buildScalar {name name' description description' : Option Value}
    {serialize serialize' parse parse' : Coercion} (names : φ.RelatesParts name name')
    (serializes : φ.RelatesCoercions serialize serialize')
    (parses : φ.RelatesCoercions parse parse')
    (descriptions : φ.RelatesParts description description') :
    P φ (Expression.buildScalar name serialize parse description)
      (Expression.buildScalar name' serialize' parse' description') Relates := by
  cases names with
  | none => exact h.throw (.inl rfl)
  | some name =>
    exact h.map (h.newScalar ⟨.some name, .some descriptions.getD, serializes, parses, .nil⟩)
      fun _ cell => .scalar cell

theorem createArgument {name name' source source' description description' : Value}
    {default default' : Option Value} (names : φ.Relates name name')
    (sources : φ.Relates source source') (defaults : φ.RelatesParts default default')
    (descriptions : φ.Relates description description') :
    P φ (Arguments.create name source default description)
      (Arguments.create name' source' default' description') RelatesRefs := by
  refine h.newArgument ⟨.some names, .some descriptions, ?_, defaults, sources,
    .none _, .nil⟩ rfl
  cases defaults with
  | none => exact .some (.bool false)
  | some => exact .some (.bool true)

theorem buildArgument {name name' type type' default default' description description' :
    Option Value} (names : φ.RelatesParts name name') (types : φ.RelatesParts type type')
    (defaults : φ.RelatesParts default default')
    (descriptions : φ.RelatesParts description description') :
    P φ (Expression.buildArgument name type default description)
      (Expression.buildArgument name' type' default' description') Relates := by
  cases names with
  | none =>
    cases types with
    | none => exact h.throw (.inl rfl)
    | some => exact h.throw (.inl rfl)
  | some name =>
    cases types with
    | none => exact h.throw (.inl rfl)
    | some type =>
      exact h.map (h.createArgument name type defaults descriptions.getD)
        fun _ cell => .argument cell

theorem buildDirective (c : Comparing P supply supply') (route : Route)
    {name name' locations locations' args args' description description' : Option Value}
    (names : φ.RelatesParts name name') (places : φ.RelatesParts locations locations')
    (arguments : φ.RelatesParts args args')
    (descriptions : φ.RelatesParts description description') :
    P φ (Expression.buildDirective supply route name locations args description)
      (Expression.buildDirective supply' route name' locations' args' description') Relates := by
  cases names with
  | none =>
    cases places with
    | none => exact h.throw (.inl rfl)
    | some => exact h.throw (.inl rfl)
  | some name =>
    cases places with
    | none => exact h.throw (.inl rfl)
    | some locations =>
      exact h.map (c.create name locations arguments.getD descriptions.getD)
        fun _ cell => .directive cell

end

mutual

/-- What is evaluated twice is built twice. Data are compared, hashed and written only outside of
calls. -/
theorem eval {called : Bool} (h : Tandem P) (c : called = false → Comparing P supply supply')
    (e : Expression)
    (quiet : e.isQuiet called = true) (φ : Pairing) :
    P φ (e.eval supply) (e.eval supply') Relates := by
  cases e with
  | null => exact h.pure .null
  | bool b => exact h.pure (.bool b)
  | int n => exact h.pure (.int n)
  | text s => exact h.pure (.text s)
  | bytes bs => exact h.pure (.bytes bs)
  | location l => exact h.pure (.location l)
  | float x =>
    cases x with
    | nan => exact h.map h.freshTag fun _ tag => .nan tag
    | infinite | finite => exact h.pure (.float rfl)
  | foreign text => exact h.map h.freshTag fun _ tag => .foreign text tag
  | list items =>
    exact h.bind (h.evalAll c items quiet φ) fun _ related =>
      h.map (h.newList related) fun _ cell => .list cell
  | tuple items =>
    exact h.bind (h.evalAll c items quiet φ) fun _ related =>
      h.map (h.newRow related) fun _ row => row
  | set items =>
    cases called with
    | false =>
      exact h.bind (h.evalAll c items quiet φ) fun _ related =>
        h.bind ((c rfl).distinct related) fun _ related =>
          h.map (h.newSet related) fun _ cell => .set cell
    | true =>
      have atoms : items.all (fun e => e.literal?.isSome) = true := quiet
      obtain ⟨vs, literal, all⟩ := evalAll_literal atoms
      obtain ⟨ms, literals, run⟩ := Container.distinct_literal literal
      have build (supply : Supplier) : Expression.eval supply (.set items) =
          (do return .set (← Action.newSet ms)) := by
        rw [Expression.eval, all, pure_bind, run, pure_bind]
      rw [build, build]
      exact h.map (h.newSet (literals.relates φ)) fun _ cell => .set cell
  | dict entries =>
    cases called with
    | false =>
      exact h.bind (h.evalEntries c entries quiet φ) fun _ related =>
        h.bind ((c rfl).dictionary related.1) fun _ related =>
          h.map (h.newDict related) fun _ cell => .dict cell
    | true =>
      refine h.bind (h.evalEntries c entries quiet φ) fun _ related => ?_
      obtain ⟨es, es', gathered, run, run'⟩ :=
        Container.dictionary_literal related.1 (related.2 rfl)
      rw [run, run', pure_bind, pure_bind]
      exact h.map (h.newDict gathered) fun _ cell => .dict cell
  | ref name => exact h.lookup name
  | type t => exact h.evalType c t quiet φ
  | argument name type default description =>
    simp only [Expression.isQuiet, Bool.and_eq_true] at quiet
    obtain ⟨⟨⟨q₁, q₂⟩, q₃⟩, q₄⟩ := quiet
    refine h.bind (h.evalField c name q₁ φ) fun {ψ₁ _ _} _ name => ?_
    refine h.bind (h.evalTypeField c type q₂ ψ₁) fun {ψ₂ _ _} le₂ type => ?_
    refine h.bind (h.evalField c default q₃ ψ₂) fun {ψ₃ _ _} le₃ default => ?_
    refine h.bind (h.evalField c description q₄ ψ₃) fun {ψ₄ _ _} le₄ description => ?_
    exact h.buildArgument (name.mono (le_trans (le_trans le₂ le₃) le₄))
      (type.mono (le_trans le₃ le₄)) (default.mono le₄) description
  | directive route name locations args description =>
    simp only [Expression.isQuiet, Bool.and_eq_true, Bool.not_eq_true'] at quiet
    obtain ⟨⟨⟨⟨outside, q₁⟩, q₂⟩, q₃⟩, q₄⟩ := quiet
    refine h.bind (h.evalField c name q₁ φ) fun {ψ₁ _ _} _ name => ?_
    refine h.bind (h.evalField c locations q₂ ψ₁) fun {ψ₂ _ _} le₂ locations => ?_
    refine h.bind (h.evalField c args q₃ ψ₂) fun {ψ₃ _ _} le₃ args => ?_
    refine h.bind (h.evalField c description q₄ ψ₃) fun {ψ₄ _ _} le₄ description => ?_
    exact h.buildDirective (c outside) route (name.mono (le_trans (le_trans le₂ le₃) le₄))
      (locations.mono (le_trans le₃ le₄)) (args.mono le₄) description

theorem evalType {called : Bool} (h : Tandem P) (c : called = false → Comparing P supply supply')
    (t : TypeExpression) (quiet : t.isQuiet called = true) (φ : Pairing) :
    P φ (t.eval supply) (t.eval supply') Relates := by
  cases t with
  | ref name => exact h.lookup name
  | wrap w t =>
    exact h.bind (h.evalType c t quiet φ) fun _ related => h.wrap w related
  | named name =>
    refine h.map (h.newNamedType ⟨?_, .nil⟩) fun _ cell => .named cell
    cases name with
    | none => exact .none
    | some name => exact .some (.text name)
  | scalar name serialize parse description =>
    simp only [TypeExpression.isQuiet, Bool.and_eq_true] at quiet
    obtain ⟨⟨⟨q₁, q₂⟩, q₃⟩, q₄⟩ := quiet
    refine h.bind (h.evalField c name q₁ φ) fun {ψ₁ _ _} _ name => ?_
    refine h.bind (h.evalCoercion c serialize q₂ ψ₁) fun {ψ₂ _ _} le₂ serialize => ?_
    refine h.bind (h.evalCoercion c parse q₃ ψ₂) fun {ψ₃ _ _} le₃ parse => ?_
    refine h.bind (h.evalField c description q₄ ψ₃) fun {ψ₄ _ _} le₄ description => ?_
    exact h.buildScalar (name.mono (le_trans (le_trans le₂ le₃) le₄))
      (serialize.mono (le_trans le₃ le₄)) (parse.mono le₄) description
  | value v => exact h.eval c v quiet φ
  | deferred counter t =>
    exact h.map h.freshTag fun _ tag => .deferred counter tag quiet
  | raising kind message => exact h.throw (Fault.isPlain_raised kind message)

theorem evalCoercion {called : Bool} (h : Tandem P)
    (c : called = false → Comparing P supply supply')
    (f : CoercionExpression) (quiet : f.isQuiet called = true) (φ : Pairing) :
    P φ (f.eval supply) (f.eval supply') RelatesCoercions := by
  cases f with
  | identity | label | integer | float | raising => exact h.pure (.plain rfl)
  | constant v => exact h.map (h.eval c v quiet φ) fun _ related => .constant related

theorem evalAll {called : Bool} (h : Tandem P) (c : called = false → Comparing P supply supply')
    (es : List Expression) (quiet : allQuiet called es = true) (φ : Pairing) :
    P φ (DirectiveSchema.evalAll supply es) (DirectiveSchema.evalAll supply' es) RelatesAll := by
  cases es with
  | nil => exact h.pure .nil
  | cons e es =>
    simp only [allQuiet, Bool.and_eq_true] at quiet
    refine h.bind (h.eval c e quiet.1 φ) fun {ψ _ _} _ first => ?_
    exact h.map (h.evalAll c es quiet.2 ψ) fun le rest => .cons (first.mono le) rest

theorem evalEntries {called : Bool} (h : Tandem P) (c : called = false → Comparing P supply supply')
    (es : List (Expression × Expression)) (quiet : entriesQuiet called es = true) (φ : Pairing) :
    P φ (DirectiveSchema.evalEntries supply es) (DirectiveSchema.evalEntries supply' es)
      fun ψ ps qs => ψ.RelatesAssignments ps qs ∧ (called = true → ∀ p ∈ ps, p.1.IsLiteral) := by
  cases es with
  | nil => exact h.pure ⟨.nil, fun _ _ hp => absurd hp List.not_mem_nil⟩
  | cons e es =>
    obtain ⟨k, v⟩ := e
    simp only [entriesQuiet, Bool.and_eq_true] at quiet
    obtain ⟨⟨q₁, q₂⟩, q₃⟩ := quiet
    have key : P φ (k.eval supply) (k.eval supply') fun ψ v w =>
        ψ.Relates v w ∧ (called = true → v.IsLiteral) := by
      cases called with
      | false =>
        exact h.weaken (h.eval c k q₁ φ) fun _ related => ⟨related, fun inside => by cases inside⟩
      | true =>
        obtain ⟨v, found⟩ := Option.isSome_iff_exists.1 q₁
        obtain ⟨literal, run⟩ := Expression.isLiteral_of_literal? found
        rw [run, run]
        exact h.pure ⟨literal.relates φ, fun _ => literal⟩
    refine h.bind key fun {ψ₁ _ _} _ key => ?_
    refine h.bind (h.eval c v q₂ ψ₁) fun {ψ₂ _ _} le value => ?_
    refine h.map (h.evalEntries c es q₃ ψ₂) fun le' rest => ⟨.cons ?_ rest.1, fun called p hp => ?_⟩
    · exact ⟨key.1.mono (le_trans le le'), value.mono le'⟩
    · rcases List.mem_cons.1 hp with rfl | hp
      · exact key.2 called
      · exact rest.2 called p hp

theorem evalField {called : Bool} (h : Tandem P) (c : called = false → Comparing P supply supply')
    (e : Option Expression) (quiet : fieldQuiet called e = true) (φ : Pairing) :
    P φ (DirectiveSchema.evalField supply e) (DirectiveSchema.evalField supply' e)
      RelatesParts := by
  cases e with
  | none => exact h.pure .none
  | some e => exact h.map (h.eval c e quiet φ) fun _ related => .some related

theorem evalTypeField {called : Bool} (h : Tandem P)
    (c : called = false → Comparing P supply supply')
    (t : Option TypeExpression) (quiet : typeFieldQuiet called t = true) (φ : Pairing) :
    P φ (DirectiveSchema.evalTypeField supply t) (DirectiveSchema.evalTypeField supply' t)
      RelatesParts := by
  cases t with
  | none => exact h.pure .none
  | some t => exact h.map (h.evalType c t quiet φ) fun _ related => .some related

end

end Tandem

end DirectiveSchema

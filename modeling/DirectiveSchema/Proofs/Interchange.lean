import DirectiveSchema.Proofs.Indifference
import DirectiveSchema.Proofs.Spelling

/-!
References in place of types. A wrapping type or an argument may be given a type, or a callable that
returns it, at every level of a type expression. Whichever way is taken, what is built is equal to
what is built without callables, hashes and is written alike, unwraps to the same leaf, and
directives over it are validated alike: nothing that is observed looks at what was given before it
asks what that stands for.
-/
namespace DirectiveSchema

variable {α β : Type} {answer : List Value → Deferred → Action Value} {b s s' u : Session}
  {ws : List Value} {x v v' t t' source : Value} {w : Wrapper} {r r' : Ref .wrapper}
  {q q' : Ref .argument} {n k : Nat}

/-! ### Type expressions -/

/-- A type expression: a leaf within wrappers. -/
inductive TypeShape where
  | leaf (x : Value)
  | wrap (w : Wrapper) (inner : TypeShape)

namespace TypeShape

def core : TypeShape → Value
  | leaf x => x
  | wrap _ e => e.core

def layers : TypeShape → Nat
  | leaf _ => 0
  | wrap _ e => e.layers + 1

end TypeShape

namespace Session

/-- A cell in which no type is kept, or the one that its source gives. -/
def KeepsOnly (resolved : Option Value) (t : Value) : Prop := resolved = none ∨ resolved = some t

/-- A datum is built as a type expression says, where each wrapped type is what a source gives. The
leaf is neither null nor a callable, and none of the wrappers around it. -/
inductive Builds (s : Session) (gives : Value → Option Value) : TypeShape → Value → Prop where
  | leaf {x : Value} : x.isKnown = true → Builds s gives (.leaf x) x
  | wrap {w : Wrapper} {e : TypeShape} {r : Ref .wrapper} {source t : Value} :
      r.index < s.wrappers.size → (s.wrapper r).source = some source → gives source = some t →
        KeepsOnly (s.wrapper r).resolved t → e.core ≠ .wrapper w r → Builds s gives e t →
          Builds s gives (.wrap w e) (.wrapper w r)

namespace Builds

variable {gives : Value → Option Value} {e e' : TypeShape}

theorem isKnown (h : s.Builds gives e v) : v.isKnown = true := by
  cases h with
  | leaf known => exact known
  | wrap => rfl

theorem notNull (h : s.Builds gives e v) : v.isNull = false := by
  have known := h.isKnown
  cases v with
  | null => cases known
  | _ => rfl

/-- A datum and its leaf tell how it is built. -/
theorem unique (h : s.Builds gives e v) (h' : s.Builds gives e' v) (core : e.core = e'.core) :
    e = e' := by
  induction h generalizing e' with
  | leaf =>
    cases h' with
    | leaf => rfl
    | wrap _ _ _ _ other _ => exact absurd core.symm other
  | wrap _ based given _ other _ ih =>
    cases h' with
    | leaf => exact absurd core other
    | wrap _ based' given' _ _ inner' =>
      cases based.symm.trans based'
      cases given.symm.trans given'
      rw [ih inner' core]

/-- The cells of the wrappers, from the outermost to the innermost. None of them comes twice: what
lies within it would have more layers than it has. -/
theorem chain (h : s.Builds gives e v) : ∃ cells : List Nat, cells.length = e.layers ∧
    cells.Nodup ∧ ∀ i ∈ cells, i < s.wrappers.size ∧ ∃ source t e',
      (s.wrapper ⟨i⟩).source = some source ∧ gives source = some t ∧ s.Builds gives e' t ∧
        e'.core = e.core ∧ e'.layers < e.layers := by
  induction h with
  | leaf => exact ⟨[], rfl, List.nodup_nil, fun _ hi => absurd hi List.not_mem_nil⟩
  | @wrap w e r source t live based given _ _ inner ih =>
    obtain ⟨cells, length, nodup, each⟩ := ih
    refine ⟨r.index :: cells, congrArg Nat.succ length, List.nodup_cons.2 ⟨fun again => ?_, nodup⟩,
      fun i hi => ?_⟩
    · obtain ⟨-, source', t', e', based', given', inner', core, fewer⟩ := each _ again
      cases based.symm.trans based'
      cases given.symm.trans given'
      rw [inner'.unique inner core] at fewer
      exact Nat.lt_irrefl _ fewer
    · rcases List.mem_cons.1 hi with rfl | hi
      · exact ⟨live, source, t, e, based, given, inner, rfl, Nat.lt_succ_self _⟩
      · obtain ⟨live', source', t', e', based', given', inner', core, fewer⟩ := each i hi
        exact ⟨live', source', t', e', based', given', inner', core, Nat.lt_succ_of_lt fewer⟩

theorem layers_le (h : s.Builds gives e v) : e.layers ≤ s.wrappers.size := by
  obtain ⟨cells, length, nodup, each⟩ := h.chain
  have among : cells ⊆ List.range s.wrappers.size := fun i hi => List.mem_range.2 (each i hi).1
  simpa [length] using (nodup.subperm among).length_le

/-- More wrappers, arguments and other cells leave a type as it is built. -/
theorem later (h : s.Builds gives e v)
    (kept : ∀ i < s.wrappers.size, i < s'.wrappers.size ∧ s'.wrappers.get i = s.wrappers.get i) :
    s'.Builds gives e v := by
  induction h with
  | leaf known => exact .leaf known
  | @wrap w e r source t live based given only other _ ih =>
    obtain ⟨live', same⟩ := kept r.index live
    have cell : s'.wrapper r = s.wrapper r := same
    exact .wrap live' (cell ▸ based) given (cell ▸ only) other ih

/-- A wrapper is built over what its source gives. -/
theorem of_wrap (h : s.Builds gives e t) (given : gives source = some t)
    (run : Types.wrap w source s = .ok v s') (other : e.core ≠ v) :
    s'.Builds gives (.wrap w e) v := by
  rw [Types.wrap] at run
  split at run
  · cases run
  · cases run
    have cell := Arena.get_add_self s.wrappers
      { source := some source, resolved := none, extra := [] }
    refine .wrap ?_ (congrArg WrappingType.source cell) given
      (.inl (congrArg WrappingType.resolved cell)) other (h.later fun i live => ⟨?_, ?_⟩)
    · exact Nat.lt_of_lt_of_eq (Nat.lt_succ_self _) (Arena.size_add _ _).symm
    · exact live.trans (Nat.lt_of_lt_of_eq (Nat.lt_succ_self _) (Arena.size_add _ _).symm)
    · exact Arena.get_add_of_lt _ _ live

end Builds

end Session

/-! ### Interchangeable types -/

/-- A wrapper of the session promises a type. -/
structure Session.WrapperPromises (b : Session) (r : Ref .wrapper) (t : Value) : Prop where
  live : r.index < b.wrappers.size
  promised : b.PromisesWrapped b r t

/-- An argument of the session promises a type. -/
structure Session.ArgumentPromises (b : Session) (q : Ref .argument) (t : Value) : Prop where
  live : q.index < b.arguments.size
  promised : b.PromisesType b q t

/-- Two wrappings of as many layers around one leaf, of which each layer promises the next one. -/
inductive Session.Interchanges (b : Session) (x : Value) : Nat → Value → Value → Prop where
  | leaf : Interchanges b x 0 x x
  | wrap {w : Wrapper} {r r' : Ref .wrapper} {t t' : Value} {k : Nat} :
      b.WrapperPromises r t → b.WrapperPromises r' t' → Interchanges b x k t t' →
        Interchanges b x (k + 1) (.wrapper w r) (.wrapper w r')

namespace Session.Interchanges

theorem symm (h : b.Interchanges x k v v') : b.Interchanges x k v' v := by
  induction h with
  | leaf => exact .leaf
  | wrap wraps wraps' _ ih => exact .wrap wraps' wraps ih

theorem depth_eq (h : b.Interchanges x k v v') : v.depth = v'.depth := by
  cases h <;> rfl

theorem isNonNull_eq (h : b.Interchanges x k v v') : v.isNonNull = v'.isNonNull := by
  cases h with
  | leaf => rfl
  | @wrap w => cases w <;> rfl

end Session.Interchanges

/-- What two wrappers promise is what two actions go on with. -/
theorem Session.Serves.accord_wrapped (h : b.Serves answer) (wraps : b.WrapperPromises r t)
    (wraps' : b.WrapperPromises r' t') {f g : Value → Action α} (rest : b.Accord (f t) (g t')) :
    b.Accord (Types.wrapped ⟨ws, answer⟩ w r >>= f) (Types.wrapped ⟨ws, answer⟩ w r' >>= g) := by
  intro s s' akin
  have promised := akin.left.wrapper wraps.live wraps.promised
  obtain ⟨u, run, akin⟩ := akin.wrapped_of_promise h promised ws w
  have promised' := akin.right.wrapper wraps'.live wraps'.promised
  obtain ⟨u', run', akin⟩ := akin.symm.wrapped_of_promise h promised' ws w
  rw [Action.bind_of_ok run, Action.bind_of_ok run']
  exact rest _ _ akin.symm

/-- One of two wrappers is resolved, and then the other. -/
theorem Session.Serves.wrapped_both (h : b.Serves answer) (wraps : b.WrapperPromises r t)
    (wraps' : b.WrapperPromises r' t') (akin : b.Akin b s) (ws : List Value) (w : Wrapper) :
    ∃ s₁ s₂, Types.wrapped ⟨ws, answer⟩ w r s = .ok t s₁ ∧
      Types.wrapped ⟨ws, answer⟩ w r' s₁ = .ok t' s₂ ∧ b.Akin b s₂ := by
  have promised := akin.right.wrapper wraps.live wraps.promised
  obtain ⟨s₁, run, akin⟩ := akin.symm.wrapped_of_promise h promised ws w
  have promised' := akin.left.wrapper wraps'.live wraps'.promised
  obtain ⟨s₂, run', akin⟩ := akin.wrapped_of_promise h promised' ws w
  exact ⟨s₁, s₂, run, run', akin.symm⟩

theorem Session.Serves.accord_type (h : b.Serves answer) (takes : b.ArgumentPromises q t)
    (takes' : b.ArgumentPromises q' t') {f g : Value → Action α} (rest : b.Accord (f t) (g t')) :
    b.Accord (Arguments.type ⟨ws, answer⟩ q >>= f) (Arguments.type ⟨ws, answer⟩ q' >>= g) := by
  intro s s' akin
  have promised := akin.left.argument takes.live takes.promised
  obtain ⟨u, run, akin⟩ := akin.type_of_promise h promised ws
  have promised' := akin.right.argument takes'.live takes'.promised
  obtain ⟨u', run', akin⟩ := akin.symm.type_of_promise h promised' ws
  rw [Action.bind_of_ok run, Action.bind_of_ok run']
  exact rest _ _ akin.symm

namespace Session.Interchanges

theorem unwrapWithin (h : b.Interchanges x k v v') (serves : b.Serves answer) (n : Nat) :
    b.Accord (Types.unwrapWithin ⟨ws, answer⟩ n v) (Types.unwrapWithin ⟨ws, answer⟩ n v') := by
  induction h generalizing n with
  | leaf => exact serves.observing.unwrapWithin ws n x
  | wrap wraps wraps' _ ih =>
    cases n with
    | zero => exact .throw _
    | succ n => exact serves.accord_wrapped wraps wraps' (ih n)

theorem unwrap (h : b.Interchanges x k v v') (serves : b.Serves answer) :
    b.Accord (Types.unwrap ⟨ws, answer⟩ v) (Types.unwrap ⟨ws, answer⟩ v') := by
  unfold Types.unwrap
  rw [h.depth_eq]
  exact .bounded fun n => h.unwrapWithin serves n

theorem isInput (h : b.Interchanges x k v v') (serves : b.Serves answer) :
    b.Accord (Types.isInput ⟨ws, answer⟩ v) (Types.isInput ⟨ws, answer⟩ v') :=
  (h.unwrap serves).bind fun _ => .pure _

/-- A format is filled by a wrapper as by any datum that is no row. -/
theorem fill (h : b.Interchanges x k v v') {label : Value → Action String}
    (blind : b.Blind (Display.fill label x)) (labels : b.Accord (label v) (label v')) :
    b.Accord (Display.fill label v) (Display.fill label v') := by
  cases h with
  | leaf => exact blind
  | wrap => exact labels

theorem write (h : b.Interchanges x k v v') (serves : b.Serves answer) (n : Nat)
    (form : Display.Form) :
    b.Accord (Display.write n ⟨ws, answer⟩ form v) (Display.write n ⟨ws, answer⟩ form v') := by
  induction h generalizing n form with
  | leaf => exact serves.observing.write n ws form x
  | @wrap w _ _ _ _ _ wraps wraps' inner ih =>
    cases n with
    | zero => exact .throw _
    | succ n =>
      have filled := inner.fill (serves.observing.fill (serves.observing.write n ws .label) x)
        (ih n .label)
      have literal := ih n .literal
      simp only [Display.write]
      refine serves.accord_wrapped wraps wraps' ?_
      cases form <;> cases w
      all_goals first
        | exact filled.bind fun _ => .pure _
        | exact literal.bind fun _ => .pure _

theorem label (h : b.Interchanges x k v v') (serves : b.Serves answer) :
    b.Accord (Display.label ⟨ws, answer⟩ v) (Display.label ⟨ws, answer⟩ v') := by
  unfold Display.label
  rw [h.depth_eq]
  exact .boundedPairs fun n => h.write serves n .label

theorem literal (h : b.Interchanges x k v v') (serves : b.Serves answer) :
    b.Accord (Display.literal ⟨ws, answer⟩ v) (Display.literal ⟨ws, answer⟩ v') := by
  have written (n : Nat) : b.Accord (Display.write n ⟨ws, answer⟩ .literal v)
      (Display.write n ⟨ws, answer⟩ .literal v') := h.write serves n .literal
  cases h with
  | leaf => exact serves.observing.literal ws x
  | wrap => exact .boundedPairs written

theorem hashWithin (h : b.Interchanges x k v v') (serves : b.Serves answer) (n : Nat) :
    b.Accord (HashKey.ofWithin ⟨ws, answer⟩ n v) (HashKey.ofWithin ⟨ws, answer⟩ n v') := by
  induction h generalizing n with
  | leaf => exact serves.observing.hashWithin ws n x
  | wrap wraps wraps' _ ih =>
    cases n with
    | zero => exact .throw _
    | succ n =>
      exact serves.accord_wrapped wraps wraps' ((ih n).bind fun _ => .pure _)

theorem hash (h : b.Interchanges x k v v') (serves : b.Serves answer) :
    b.Accord (HashKey.of ⟨ws, answer⟩ v) (HashKey.of ⟨ws, answer⟩ v') := by
  unfold HashKey.of
  rw [h.depth_eq]
  exact .boundedPairs fun n => h.hashWithin serves n

end Session.Interchanges

/-- What is built in any way promises, layer by layer, what is built without callables. As the leaf
is held by a cell there, it is no deeper than the data of the session. -/
theorem Session.Builds.interchanges {e : TypeShape} (h : b.Builds b.given? e v)
    (h' : b.Builds some e v') : b.Interchanges e.core e.layers v v' := by
  induction h generalizing v' with
  | leaf =>
    cases h'
    exact .leaf
  | wrap live based given kept _ inner ih =>
    cases h' with
    | @wrap _ _ r' t' _ live' based' given' kept' _ inner' =>
      cases given'
      have within := ih inner'
      have among : t' ∈ b.contents :=
        mem_contents_of_wrapper live' (by simp [WrappingType.contents, based'])
      have shallow := Value.depth_le_depths among
      refine .wrap ⟨live, ⟨_, based, given, inner.notNull, ?_⟩, kept⟩
        ⟨live', ⟨_, based', given?_of_isKnown inner'.isKnown, inner'.notNull, shallow⟩, kept'⟩
        within
      rw [within.depth_eq]
      exact shallow

/-! ### Equality -/

/-- Whether the parts of a datum are found by hash keys. -/
def Value.isKeyed : Value → Bool
  | .set _ | .dict _ => true
  | _ => false

/-- A leaf equals itself. A set or a dictionary compares elements that share a hash key, and there
it must do so also with less room than the session leaves: the wrappers around it take some. -/
structure Session.EqualsItself (s : Session) (x : Value) : Prop where
  equal : (Equality.equal Deferred.supplier x x).result? s = some true
  keyed (n : Nat) : x.isKeyed = true → s.reach * s.reach < n →
    (Equality.equalWithin Deferred.supplier n x x).result? s = some true

/-- What is not searched by hash keys compares itself without entering its parts. If it equals
itself, it does so in every session. -/
theorem Equality.equalWithin_of_equal {supply : Supplier} (plain : x.isKeyed = false)
    (h : (equal supply x x).result? s = some true) (n : Nat) (u : Session) :
    equalWithin supply (n + 1) x x u = .ok true u := by
  have refl (xs : List Value) : rows (equalWithin supply n) xs xs u = .ok true u :=
    rows_of_element (List.forall₂_same.2 fun v _ => element_refl _ v u)
  cases x with
  | set | dict => cases plain
  | wrapper | argument | directive =>
    simp only [equalWithin, and_self, if_true]
    rfl
  | list r =>
    show (if (u.list r).length = (u.list r).length then rows (equalWithin supply n) (u.list r)
      (u.list r) else pure false) u = _
    rw [if_pos rfl]
    exact refl (u.list r)
  | tuple _ items => exact refl items
  | config _ name locations args description => exact refl [name, locations, args, description]
  | _ =>
    obtain ⟨m, -, bound⟩ := Action.boundedPairs_succ (Value.depth _)
      (fun n => equalWithin supply n _ _) s
    rw [equal, Action.result?, bound] at h
    exact congrArg (EStateM.Result.ok · u) (Option.some.inj h)

/-- What is not searched by hash keys need equal itself once only. -/
theorem Session.EqualsItself.of_equal {u : Session} (plain : x.isKeyed = false)
    (h : (Equality.equal Deferred.supplier x x).result? s = some true) : u.EqualsItself x where
  equal := by
    obtain ⟨n, bound⟩ : ∃ n, (u.reach + x.depth + 1) * (u.reach + x.depth + 1) = n + 1 :=
      ⟨_, (Nat.sub_add_cancel (Nat.mul_pos (by omega) (by omega))).symm⟩
    have compared : Equality.equalWithin Deferred.supplier
        ((u.reach + x.depth + 1) * (u.reach + x.depth + 1)) x x u = .ok true u := by
      rw [bound]
      exact Equality.equalWithin_of_equal plain h n u
    exact Action.result?_of_ok compared
  keyed _ keyed _ := absurd keyed (by rw [plain]; decide)

theorem Session.EqualsItself.within (h : s.EqualsItself x) (room : s.reach * s.reach < n) :
    (Equality.equalWithin Deferred.supplier n x x).result? s = some true := by
  cases keyed : x.isKeyed with
  | true => exact h.keyed n keyed room
  | false =>
    obtain ⟨m, rfl⟩ : ∃ m, n = m + 1 := ⟨n - 1, by omega⟩
    rw [Action.result?, Equality.equalWithin_of_equal keyed h.equal m s]

namespace Session.Interchanges

/-- Interchangeable types are compared layer by layer, down to the leaf. -/
theorem equalWithin (h : b.Interchanges x k v v') (self : b.EqualsItself x) (akin : b.Akin b s)
    (room : b.reach * b.reach < n) :
    ∃ u, Equality.equalWithin Deferred.supplier (n + k) v v' s = .ok true u := by
  have serves := Session.Serves.supplier b
  induction h generalizing s with
  | leaf =>
    obtain ⟨u, run⟩ := Action.ok_of_result? (self.within room)
    obtain ⟨u', run', -⟩ := (serves.observing.equalWithin [] n x x).ok akin run
    exact ⟨u', run'⟩
  | @wrap w r r' t t' k wraps wraps' _ ih =>
    show ∃ u, Equality.equalWithin Deferred.supplier (n + k + 1) _ _ s = .ok true u
    simp only [Equality.equalWithin, true_and, ne_eq, not_true_eq_false, if_false]
    split
    · exact ⟨s, rfl⟩
    · obtain ⟨s₁, s₂, run, run', akin⟩ := serves.wrapped_both wraps wraps' akin [] w
      obtain ⟨u, equal⟩ := ih akin
      exact ⟨u, (Action.bind_of_ok run).trans ((Action.bind_of_ok run').trans equal)⟩

/-- The walk that compares two data leaves room for a leaf, within some layers around it. -/
theorem room_for_leaf (few : k ≤ 2 * b.reach) (akin : b.Akin b s) (v : Value) :
    b.reach * b.reach + k < (s.reach + v.depth + 1) * (s.reach + v.depth + 1) := by
  have more : b.reach ≤ s.reach + v.depth := by
    rw [← akin.shows.reach]
    exact Nat.le_add_right _ _
  have square := Nat.mul_le_mul more more
  rw [Nat.succ_mul, Nat.mul_succ]
  omega

/-- Interchangeable types are equal. -/
theorem equal (h : b.Interchanges x k v v') (self : b.EqualsItself x) (akin : b.Akin b s)
    (few : k ≤ b.wrappers.size) :
    ∃ u, Equality.equal Deferred.supplier v v' s = .ok true u := by
  have objects := b.objects_add_depth_le_reach
  have room := room_for_leaf (k := k) (by omega) akin v
  obtain ⟨n, bound⟩ : ∃ n, (s.reach + v.depth + 1) * (s.reach + v.depth + 1) = n + k :=
    ⟨_, (Nat.sub_add_cancel (by omega)).symm⟩
  obtain ⟨u, run⟩ := h.equalWithin self akin (n := n) (by omega)
  refine ⟨u, ?_⟩
  show Equality.equalWithin Deferred.supplier
    ((s.reach + v.depth + 1) * (s.reach + v.depth + 1)) v v' s = _
  rw [bound]
  exact run

end Session.Interchanges

/-- What is left of them when null is admitted is equal as well. -/
theorem Session.Interchanges.nullable_equal (h : b.Interchanges x (k + 1) v v')
    (self : b.EqualsItself x) (few : k + 1 ≤ b.wrappers.size) :
    ∃ u, (do
      let t ← Types.nullable Deferred.supplier v
      let t' ← Types.nullable Deferred.supplier v'
      Equality.equal Deferred.supplier t t') b = .ok true u := by
  have equal := h.equal self (.refl b) few
  cases h with
  | @wrap w r r' t t' _ wraps wraps' within =>
    cases w with
    | nonNull =>
      obtain ⟨s₁, s₂, run, run', akin⟩ :=
        (Serves.supplier b).wrapped_both wraps wraps' (.refl b) [] .nonNull
      obtain ⟨u, equal⟩ := within.equal self akin (by omega)
      exact ⟨u, (Action.bind_of_ok run).trans ((Action.bind_of_ok run').trans equal)⟩
    | list | plain => exact equal

/-! ### Arguments -/

/-- Arguments that differ in their types only. -/
structure Argument.Resembles (c c' : Argument) : Prop where
  name : c.name = c'.name
  description : c.description = c'.description
  hasDefault : c.hasDefault = c'.hasDefault
  default : c.default = c'.default

/-- Arguments that differ in their types only do so in later sessions. -/
theorem Argument.Resembles.settles {c c' d d' : Argument} (h : c.Resembles c')
    (settles : c.Settles d) (settles' : c'.Settles d') : d.Resembles d' where
  name := settles.name.trans (h.name.trans settles'.name.symm)
  description := settles.description.trans (h.description.trans settles'.description.symm)
  hasDefault := settles.hasDefault.trans (h.hasDefault.trans settles'.hasDefault.symm)
  default := settles.default.trans (h.default.trans settles'.default.symm)

/-- Arguments that differ in nothing but in how the same type is given. -/
structure Session.InterchangesArguments (b : Session) (x : Value) (k : Nat)
    (q q' : Ref .argument) : Prop where
  resembles : (b.argument q).Resembles (b.argument q')
  types : ∃ t t', b.ArgumentPromises q t ∧ b.ArgumentPromises q' t' ∧ b.Interchanges x k t t'

/-- An argument whose type is built as a type expression says. -/
structure Session.Declares (s : Session) (gives : Value → Option Value) (e : TypeShape)
    (q : Ref .argument) : Prop where
  live : q.index < s.arguments.size
  type : ∃ t, gives (s.argument q).source = some t ∧ KeepsOnly (s.argument q).resolved t ∧
    s.Builds gives e t

/-- An argument is declared with what its source gives. -/
theorem Session.Declares.of_create {gives : Value → Option Value} {e : TypeShape} {name : Value}
    {default : Option Value} {description : Value} (h : s.Builds gives e t)
    (given : gives source = some t)
    (run : Arguments.create name source default description s = .ok q s') :
    s'.Declares gives e q := by
  cases run
  have cell := Arena.get_add_self s.arguments {
    name := some name
    description := some description
    hasDefault := some (.bool default.isSome)
    default
    source
    resolved := none
    extra := [] }
  refine ⟨Nat.lt_of_lt_of_eq (Nat.lt_succ_self _) (Arena.size_add _ _).symm, t, ?_, ?_, ?_⟩
  · exact (congrArg (gives ·.source) cell).trans given
  · exact .inl (congrArg Argument.resolved cell)
  · exact h.later fun _ live => ⟨live, rfl⟩

theorem Session.Declares.interchanges {e : TypeShape} (h : b.Declares b.given? e q)
    (h' : b.Declares some e q') (resembles : (b.argument q).Resembles (b.argument q')) :
    b.InterchangesArguments e.core e.layers q q' := by
  obtain ⟨t, given, kept, built⟩ := h.type
  obtain ⟨t', given', kept', built'⟩ := h'.type
  have within := built.interchanges built'
  cases given'
  have among : (b.argument q').source ∈ b.contents :=
    mem_contents_of_argument h'.live (by simp [Argument.contents])
  have shallow := Value.depth_le_depths among
  refine ⟨resembles, t, _, ⟨h.live, ⟨_, rfl, given, built.notNull, ?_⟩, kept⟩,
    ⟨h'.live, ⟨_, rfl, given?_of_isKnown built'.isKnown, built'.notNull, shallow⟩, kept'⟩, within⟩
  rw [within.depth_eq]
  exact shallow

namespace Session.InterchangesArguments

theorem symm (h : b.InterchangesArguments x k q q') : b.InterchangesArguments x k q' q := by
  obtain ⟨⟨name, description, hasDefault, default⟩, t, t', takes, takes', within⟩ := h
  exact ⟨⟨name.symm, description.symm, hasDefault.symm, default.symm⟩, t', t, takes', takes,
    within.symm⟩

/-- In sessions that are akin, they resemble each other still. -/
theorem later (h : b.InterchangesArguments x k q q') (akin : b.Akin s s') :
    (s.argument q).Resembles (s'.argument q') := by
  obtain ⟨t, t', takes, takes', -⟩ := h.types
  exact h.resembles.settles (akin.left.extension.argument takes.live)
    (akin.right.extension.argument takes'.live)

theorem name (h : b.InterchangesArguments x k q q') :
    b.Accord (Arguments.name q) (Arguments.name q') := by
  intro s s' akin
  rw [Arguments.name_eq, Arguments.name_eq, (h.later akin).name]
  exact (Blind.closed b).present _ _ _ s s' akin

/-- What is done with the types. -/
theorem accord_type (h : b.InterchangesArguments x k q q') (serves : b.Serves answer)
    {f g : Value → Action α} (rest : ∀ {t t'}, b.Interchanges x k t t' → b.Accord (f t) (g t')) :
    b.Accord (Arguments.type ⟨ws, answer⟩ q >>= f) (Arguments.type ⟨ws, answer⟩ q' >>= g) := by
  obtain ⟨t, t', takes, takes', within⟩ := h.types
  exact serves.accord_type takes takes' (rest within)

theorem write (h : b.InterchangesArguments x k q q') (serves : b.Serves answer) (n : Nat)
    (form : Display.Form) :
    b.Accord (Display.write n ⟨ws, answer⟩ form (.argument q))
      (Display.write n ⟨ws, answer⟩ form (.argument q')) := by
  cases n with
  | zero => exact .throw _
  | succ n =>
    simp only [Display.write]
    refine h.name.bind fun name => h.accord_type serves fun within => ?_
    refine (serves.observing.write n ws .label name).bind fun _ => ?_
    exact (within.write serves n .label).bind fun _ => .pure _

theorem label (h : b.InterchangesArguments x k q q') (serves : b.Serves answer) :
    b.Accord (Display.label ⟨ws, answer⟩ (.argument q))
      (Display.label ⟨ws, answer⟩ (.argument q')) :=
  .boundedPairs fun n => h.write serves n .label

theorem literal (h : b.InterchangesArguments x k q q') (serves : b.Serves answer) :
    b.Accord (Display.literal ⟨ws, answer⟩ (.argument q))
      (Display.literal ⟨ws, answer⟩ (.argument q')) :=
  .boundedPairs fun n => h.write serves n .literal

theorem hash (h : b.InterchangesArguments x k q q') (serves : b.Serves answer) :
    b.Accord (HashKey.of ⟨ws, answer⟩ (.argument q)) (HashKey.of ⟨ws, answer⟩ (.argument q')) := by
  refine .boundedPairs fun n => ?_
  cases n with
  | zero => exact .throw _
  | succ n =>
    refine h.name.bind fun name => h.accord_type serves fun within => ?_
    refine (serves.observing.hashWithin ws n name).bind fun _ => ?_
    exact (within.hashWithin serves n).bind fun _ => .pure _

theorem required (h : b.InterchangesArguments x k q q') (serves : b.Serves answer) :
    b.Accord (Arguments.required ⟨ws, answer⟩ q) (Arguments.required ⟨ws, answer⟩ q') := by
  refine h.accord_type serves fun within => ?_
  intro s s' akin
  show b.Meets (.ok (_ && (s.argument q).default.isNone) s)
    (.ok (_ && (s'.argument q').default.isNone) s')
  rw [within.isNonNull_eq, (h.later akin).default]
  exact .ok _ akin

end Session.InterchangesArguments

/-- An argument of which no attribute was deleted. -/
structure Argument.Whole (c : Argument) : Prop where
  name : c.name.isSome = true
  description : c.description.isSome = true
  hasDefault : c.hasDefault.isSome = true

/-- What an argument is compared by. -/
theorem Session.Serves.argumentKey (h : b.Serves answer) (takes : b.ArgumentPromises q t)
    {name description hasDefault : Value} (named : (b.argument q).name = some name)
    (described : (b.argument q).description = some description)
    (decided : (b.argument q).hasDefault = some hasDefault) (akin : b.Akin s s')
    (ws : List Value) :
    ∃ u, Equality.argumentKey ⟨ws, answer⟩ q s =
      .ok ⟨name, t, description, hasDefault, (b.argument q).default⟩ u ∧ b.Akin u s' := by
  have read : Arguments.name q s = .ok name s := by
    rw [Arguments.name_eq, (akin.left.extension.argument takes.live).name, named]
    rfl
  have promised := akin.left.argument takes.live takes.promised
  obtain ⟨u, typed, akin⟩ := akin.type_of_promise h promised ws
  have settles := akin.left.extension.argument takes.live
  have readDescription : Arguments.description q u = .ok description u := by
    rw [Arguments.description_eq, settles.description, described]
    rfl
  have readHasDefault : Arguments.hasDefault q u = .ok hasDefault u := by
    rw [Arguments.hasDefault_eq, settles.hasDefault, decided]
    rfl
  refine ⟨u, ?_, akin⟩
  rw [Equality.argumentKey, Action.bind_of_ok read, Action.bind_of_ok typed,
    Action.bind_of_ok readDescription, Action.bind_of_ok readHasDefault, Action.get_bind,
    settles.default]
  rfl

/-- Arguments that differ in nothing but in how the same type is given are equal. -/
theorem Session.InterchangesArguments.equal (h : b.InterchangesArguments x k q q')
    (whole : (b.argument q).Whole) (self : b.EqualsItself x) (akin : b.Akin b s)
    (few : k ≤ b.wrappers.size) :
    ∃ u, Equality.equal Deferred.supplier (.argument q) (.argument q') s = .ok true u := by
  have serves := Session.Serves.supplier b
  obtain ⟨t, t', takes, takes', within⟩ := h.types
  obtain ⟨name, named⟩ := Option.isSome_iff_exists.1 whole.name
  obtain ⟨description, described⟩ := Option.isSome_iff_exists.1 whole.description
  obtain ⟨hasDefault, decided⟩ := Option.isSome_iff_exists.1 whole.hasDefault
  have resembles := h.resembles
  have room : b.reach * b.reach + (k + 1) < (s.reach + 0 + 1) * (s.reach + 0 + 1) := by
    have objects := b.objects_add_depth_le_reach
    have one : 0 < b.arguments.size := Nat.lt_of_le_of_lt (Nat.zero_le _) takes.live
    exact Session.Interchanges.room_for_leaf (by omega) akin .null
  obtain ⟨n, bound⟩ : ∃ n, (s.reach + 0 + 1) * (s.reach + 0 + 1) = n + k + 1 :=
    ⟨(s.reach + 0 + 1) * (s.reach + 0 + 1) - (k + 1), by omega⟩
  have compared : Equality.equal Deferred.supplier (.argument q) (.argument q') s =
      Equality.equalWithin Deferred.supplier (n + k + 1) (.argument q) (.argument q') s := by
    rw [← bound]
    rfl
  rw [compared]
  simp only [Equality.equalWithin]
  split
  · exact ⟨s, rfl⟩
  · obtain ⟨s₁, run, akin₁⟩ := serves.argumentKey takes named described decided akin.symm []
    obtain ⟨s₂, run', akin₂⟩ := serves.argumentKey takes' (resembles.name.symm.trans named)
      (resembles.description.symm.trans described) (resembles.hasDefault.symm.trans decided) akin₁
      []
    obtain ⟨u, typed⟩ : ∃ u, Equality.element
        (Equality.equalWithin Deferred.supplier (n + k)) t t' s₂ = .ok true u := by
      rw [Equality.element]
      split
      · exact ⟨s₂, rfl⟩
      · exact within.equalWithin self akin₂.symm (by omega)
    have defaults : Equality.defaults (Equality.equalWithin Deferred.supplier (n + k))
        (b.argument q).default (b.argument q').default u = .ok true u := by
      rw [resembles.default]
      cases (b.argument q').default with
      | none => rfl
      | some v => exact Equality.element_refl _ v u
    refine ⟨u, (Action.bind_of_ok run).trans ((Action.bind_of_ok run').trans ?_)⟩
    rw [Equality.argumentKeys, Action.bind_of_ok (Equality.element_refl _ name s₂)]
    refine (Action.bind_of_ok typed).trans ?_
    refine (Action.bind_of_ok (Equality.element_refl _ description u)).trans ?_
    exact (Action.bind_of_ok (Equality.element_refl _ hasDefault u)).trans defaults

end DirectiveSchema

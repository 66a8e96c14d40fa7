import DirectiveSchema.Container.Keyed
import DirectiveSchema.Proofs.Keeps
import DirectiveSchema.Validation

/-!
Observing data: writing, comparing, hashing and validating them. All that an observation does to a
session is to resolve the types of wrappers and arguments, by whatever answers the calls of deferred
types, and to give notices. A relation that these steps keep is kept by every observation.
-/
namespace DirectiveSchema

variable {α β : Type} {answer : List Value → Deferred → Action Value}
  {P : {α : Type} → Action α → Prop} {R : Session → Session → Prop}

/-! ### Classes of actions -/

/-- Two sessions that show the same. They may differ in which types are resolved, in which calls
were counted, and in what was noted. -/
structure Session.Shows (s s' : Session) : Prop where
  lists : s.lists = s'.lists
  sets : s.sets = s'.sets
  dicts : s.dicts = s'.dicts
  namedTypes : s.namedTypes = s'.namedTypes
  scalars : s.scalars = s'.scalars
  directives : s.directives = s'.directives
  bindings : s.bindings = s'.bindings
  name (q : Ref .argument) : (s.argument q).name = (s'.argument q).name
  description (q : Ref .argument) : (s.argument q).description = (s'.argument q).description
  hasDefault (q : Ref .argument) : (s.argument q).hasDefault = (s'.argument q).hasDefault
  default (q : Ref .argument) : (s.argument q).default = (s'.argument q).default
  reach : s.reach = s'.reach

namespace Session.Shows

variable {s s' : Session} (h : s.Shows s')

include h

theorem list (r : Ref .list) : s.list r = s'.list r := by rw [Session.list, h.lists, Session.list]

theorem set (r : Ref .set) : s.set r = s'.set r := by rw [Session.set, h.sets, Session.set]

theorem dict (r : Ref .dict) : s.dict r = s'.dict r := by rw [Session.dict, h.dicts, Session.dict]

theorem namedType (r : Ref .named) : s.namedType r = s'.namedType r := by
  rw [Session.namedType, h.namedTypes, Session.namedType]

theorem scalar (r : Ref .scalar) : s.scalar r = s'.scalar r := by
  rw [Session.scalar, h.scalars, Session.scalar]

theorem directive (r : Ref .directive) : s.directive r = s'.directive r := by
  rw [Session.directive, h.directives, Session.directive]

theorem binding? (name : String) : s.binding? name = s'.binding? name := by
  rw [Session.binding?, h.bindings, Session.binding?]

end Session.Shows

/-- A class of actions that is closed under the ways in which actions are put together. What an
action reads of a session has to be what the session shows. -/
structure Closed (P : {α : Type} → Action α → Prop) : Prop where
  pure {α : Type} (a : α) : P (pure a : Action α)
  throw {α : Type} (f : Fault) : P (throw f : Action α)
  bind {α β : Type} {x : Action α} {f : α → Action β} : P x → (∀ a, P (f a)) → P (x >>= f)
  tryCatch {α : Type} {x : Action α} {f : Fault → Action α} :
    P x → (∀ e, P (f e)) → P (tryCatch x f)
  look {α : Type} {f : Session → Action α} :
    (∀ {s s'}, s.Shows s' → f s = f s') → (∀ s, P (f s)) → P (get >>= f)

/-- Actions that keep a relation between sessions are closed, whatever they read. -/
theorem Lasting.closed (h : Lasting R) : Closed (Keeps R) where
  pure := h.pure
  throw := h.throw
  bind := h.bind
  tryCatch := h.tryCatch
  look _ := h.bindGet

namespace Closed

/-- Nothing follows a fault. -/
theorem throwFirst (h : Closed P) (f : Fault) {rest : α → Action β} :
    P (MonadExcept.throw f >>= rest) := h.throw f

theorem bounded (h : Closed P) {outside : Nat} {f : Nat → Action α} (rest : ∀ n, P (f n)) :
    P (Action.bounded outside f) :=
  h.look (fun e => by simp only [e.reach]) fun _ => rest _

theorem boundedPairs (h : Closed P) {outside : Nat} {f : Nat → Action α} (rest : ∀ n, P (f n)) :
    P (Action.boundedPairs outside f) :=
  h.bounded fun _ => rest _

theorem mapM (h : Closed P) {f : α → Action β} (step : ∀ a, P (f a)) (as : List α) :
    P (as.mapM f) := by
  induction as with
  | nil => exact h.pure []
  | cons a as ih =>
    rw [List.mapM_cons]
    exact h.bind (step a) fun b => h.bind ih fun bs => h.pure (b :: bs)

theorem foldlM (h : Closed P) {f : β → α → Action β} (step : ∀ b a, P (f b a)) (as : List α)
    (b : β) : P (as.foldlM f b) := by
  induction as generalizing b with
  | nil => exact h.pure b
  | cons a as ih =>
    rw [List.foldlM_cons]
    exact h.bind (step b a) ih

/-- An attribute is read, or is missing. -/
theorem present (h : Closed P) (className key : String) (v : Option Value) :
    P (Arguments.present className key v) := by
  cases v with
  | none => exact h.throw _
  | some v => exact h.pure v

end Closed

/-- A class of actions that may resolve types. -/
structure Observing (answer : List Value → Deferred → Action Value)
    (P : {α : Type} → Action α → Prop) : Prop extends Closed P where
  wrapped (ws : List Value) (w : Wrapper) (r : Ref .wrapper) : P (Types.wrapped ⟨ws, answer⟩ w r)
  type (ws : List Value) (r : Ref .argument) : P (Arguments.type ⟨ws, answer⟩ r)

/-- A class of actions that may resolve types and give the warnings of a validation. -/
structure Validating (answer : List Value → Deferred → Action Value)
    (P : {α : Type} → Action α → Prop) : Prop extends Observing answer P where
  warn (n : Notice) : n.isWarning = true → P (Action.note n)

/-- A class of actions that may resolve types and give notices. -/
structure Noting (answer : List Value → Deferred → Action Value)
    (P : {α : Type} → Action α → Prop) : Prop extends Validating answer P where
  note (n : Notice) : P (Action.note n)
  warn := fun n _ => note n

/-- A relation that is kept when a type is resolved, whatever is being written. -/
structure Resolving (answer : List Value → Deferred → Action Value)
    (R : Session → Session → Prop) : Prop extends Lasting R, Observing answer (Keeps R) where
  pure := Lasting.pure ⟨refl, trans⟩
  throw := Lasting.throw ⟨refl, trans⟩
  bind := Lasting.bind ⟨refl, trans⟩
  tryCatch := Lasting.tryCatch ⟨refl, trans⟩
  look := fun _ => Lasting.bindGet ⟨refl, trans⟩

/-- A relation that is kept when a type is resolved, and when a warning is given. -/
structure Checked (answer : List Value → Deferred → Action Value)
    (R : Session → Session → Prop) : Prop extends Resolving answer R, Validating answer (Keeps R)

/-- A relation that is kept when a type is resolved, and when a notice is given. -/
structure Observed (answer : List Value → Deferred → Action Value)
    (R : Session → Session → Prop) : Prop extends Checked answer R, Noting answer (Keeps R)

namespace Observing

theorem argumentName (h : Observing answer P) (r : Ref .argument) : P (Arguments.name r) :=
  h.look (fun e => by simp only [e.name]) fun _ => h.present _ _ _

theorem argumentDescription (h : Observing answer P) (r : Ref .argument) :
    P (Arguments.description r) :=
  h.look (fun e => by simp only [e.description]) fun _ => h.present _ _ _

theorem argumentHasDefault (h : Observing answer P) (r : Ref .argument) :
    P (Arguments.hasDefault r) :=
  h.look (fun e => by simp only [e.hasDefault]) fun _ => h.present _ _ _

theorem argumentDefault (h : Observing answer P) (r : Ref .argument) : P (Arguments.default r) :=
  h.look (fun e => by simp only [e.default]) fun s => by
    split
    · exact h.pure _
    · exact h.throw _

theorem argumentRequired (h : Observing answer P) (ws : List Value) (r : Ref .argument) :
    P (Arguments.required ⟨ws, answer⟩ r) :=
  h.bind (h.type ws r) fun _ => h.look (fun e => by simp only [e.default]) fun _ => h.pure _

/-! ### Types -/

theorem unwrapWithin (h : Observing answer P) (ws : List Value) (n : Nat) (v : Value) :
    P (Types.unwrapWithin ⟨ws, answer⟩ n v) := by
  induction n generalizing v with
  | zero =>
    cases v with
    | wrapper w r => exact h.throw _
    | _ => exact h.pure _
  | succ n ih =>
    cases v with
    | wrapper w r => exact h.bind (h.wrapped ws w r) ih
    | _ => exact h.pure _

theorem unwrap (h : Observing answer P) (ws : List Value) (v : Value) :
    P (Types.unwrap ⟨ws, answer⟩ v) :=
  h.bounded fun n => h.unwrapWithin ws n v

theorem isInput (h : Observing answer P) (ws : List Value) (v : Value) :
    P (Types.isInput ⟨ws, answer⟩ v) :=
  h.bind (h.unwrap ws v) fun _ => h.pure _

theorem nullable (h : Observing answer P) (ws : List Value) (v : Value) :
    P (Types.nullable ⟨ws, answer⟩ v) := by
  unfold Types.nullable
  split
  · exact h.wrapped ws _ _
  · exact h.pure _

/-! ### Texts -/

theorem integer (h : Observing answer P) (n : Int) : P (Display.integer n) := by
  simp only [Display.integer]
  split
  · exact h.throw _
  · exact h.pure _

theorem nameLabel (h : Observing answer P) (v : Value) : P (Display.nameLabel v) := by
  unfold Display.nameLabel
  split
  · exact h.pure _
  · exact h.throw _

theorem fill (h : Observing answer P) {label : Value → Action String}
    (labels : ∀ v, P (label v)) (v : Value) : P (Display.fill label v) := by
  unfold Display.fill
  split
  · exact labels v
  · exact h.throw _
  · exact labels _
  · exact h.bind (labels _) fun _ => h.throw _

theorem enter (h : Observing answer P) {ws : List Value} {v : Value} {mark : String}
    {body : Supplier → Action String} (inside : ∀ ws, P (body ⟨ws, answer⟩)) :
    P (Display.enter ⟨ws, answer⟩ v mark body) := by
  unfold Display.enter
  split
  · exact h.pure _
  · exact inside (v :: ws)

theorem directiveLiteral (h : Observing answer P) {label : Value → Action String}
    (labels : ∀ v, P (label v)) (d : Directive) :
    P (Display.directiveLiteral label d) :=
  h.bind (labels _) fun _ => h.bind (h.mapM labels _) fun _ => h.pure _

/-- A container may enter its elements in any surroundings, hence the induction over the depth with
arbitrary data that are being written. -/
theorem write (h : Observing answer P) (n : Nat) (ws : List Value) (form : Display.Form)
    (v : Value) : P (Display.write n ⟨ws, answer⟩ form v) := by
  induction n generalizing ws form v with
  | zero => exact h.throw _
  | succ n ih =>
    cases v with
    | null | unnamed | bool | float | text | bytes | location | foreign | deferred =>
      exact h.pure _
    | int i => exact h.integer i
    | tuple tag items =>
      simp only [Display.write]
      refine h.enter fun inside => h.bind (h.mapM (fun _ => ih inside .literal _) _) fun _ => ?_
      exact h.pure _
    | list r =>
      simp only [Display.write]
      refine h.enter fun inside => h.look (fun e => by simp only [e.list]) fun _ => ?_
      exact h.bind (h.mapM (fun _ => ih inside .literal _) _) fun _ => h.pure _
    | set r =>
      simp only [Display.write]
      refine h.enter fun inside => h.look (fun e => by simp only [e.set]) fun _ => ?_
      exact h.bind (h.mapM (fun _ => ih inside .literal _) _) fun _ => h.pure _
    | dict r =>
      simp only [Display.write]
      refine h.enter fun inside => h.look (fun e => by simp only [e.dict]) fun _ => ?_
      refine h.bind (h.mapM (fun _ => ?_) _) fun _ => ?_
      · refine h.bind (ih inside .literal _) fun _ => ?_
        exact h.bind (ih inside .literal _) fun _ => h.pure _
      · exact h.pure _
    | config tag name locations args description =>
      exact h.bind (ih ws .literal _) fun _ => h.bind (ih ws .literal _) fun _ =>
        h.bind (ih ws .literal _) fun _ => h.bind (ih ws .literal _) fun _ => h.pure _
    | named r =>
      refine h.look (fun e => by simp only [e.namedType]) fun s => ?_
      cases form with
      | label => exact h.nameLabel _
      | literal => exact h.bind (ih ws .label _) fun _ => h.pure _
    | scalar r =>
      refine h.look (fun e => by simp only [e.scalar]) fun s => ?_
      cases form with
      | label => exact h.nameLabel _
      | literal => exact h.bind (ih ws .label _) fun _ => h.pure _
    | wrapper w r =>
      refine h.bind (h.wrapped ws w r) fun t => ?_
      have filled : P (Display.fill (Display.write n ⟨ws, answer⟩ .label) t) :=
        h.fill (ih ws .label) t
      have literal := ih ws .literal t
      cases form <;> cases w
      all_goals first
        | exact h.bind filled fun _ => h.pure _
        | exact h.bind literal fun _ => h.pure _
    | argument r =>
      exact h.bind (h.argumentName r) fun _ => h.bind (h.type ws r) fun _ =>
        h.bind (ih ws .label _) fun _ => h.bind (ih ws .label _) fun _ => h.pure _
    | directive r =>
      refine h.look (fun e => by simp only [e.directive]) fun s => ?_
      cases form with
      | label => exact h.bind (ih ws .label _) fun _ => h.pure _
      | literal => exact h.directiveLiteral (ih ws .label) _

theorem label (h : Observing answer P) (ws : List Value) (v : Value) :
    P (Display.label ⟨ws, answer⟩ v) :=
  h.boundedPairs fun n => h.write n ws .label v

theorem literal (h : Observing answer P) (ws : List Value) (v : Value) :
    P (Display.literal ⟨ws, answer⟩ v) := by
  unfold Display.literal
  split
  · exact h.look (fun e => by simp only [e.directive]) fun _ => h.directiveLiteral (h.label ws) _
  · exact h.boundedPairs fun n => h.write n ws .literal v

theorem labelValue (h : Observing answer P) (ws : List Value) (v : Value) :
    P (Display.labelValue ⟨ws, answer⟩ v) := by
  -- A type is named by the datum that its cell holds, whatever that is.
  have named (name : Value) : P
      (if name.text?.isSome then pure name else throw (.labelNotText name.className)) := by
    split
    · exact h.pure _
    · exact h.throw _
  unfold Display.labelValue
  dsimp only
  split
  · exact h.look (fun e => by simp only [e.namedType]) fun _ => named _
  · exact h.look (fun e => by simp only [e.scalar]) fun _ => named _
  · rw [pure_bind]
    exact h.bind (h.label ws v) fun _ => h.pure _

theorem filled (h : Observing answer P) (ws : List Value) (v : Value) :
    P (Display.filled ⟨ws, answer⟩ v) :=
  h.fill (h.label ws) v

theorem filledLiteral (h : Observing answer P) (ws : List Value) (v : Value) :
    P (Display.filledLiteral ⟨ws, answer⟩ v) :=
  h.fill (h.literal ws) v

/-! ### Equality -/

section

variable {eq : Value → Value → Action Bool}

theorem element (h : Observing answer P) (equal : ∀ a b, P (eq a b)) (x y : Value) :
    P (Equality.element eq x y) := by
  unfold Equality.element
  split
  · exact h.pure _
  · exact equal x y

/-- A test whose answer decides how to go on. -/
theorem test (h : Observing answer P) {x : Action Bool} {y z : Action α} (first : P x)
    (yes : P y) (no : P z) : P (do if ← x then y else z) := by
  refine h.bind first fun b => ?_
  cases b with
  | true => exact yes
  | false => exact no

theorem rows (h : Observing answer P) (equal : ∀ a b, P (eq a b)) (xs ys : List Value) :
    P (Equality.rows eq xs ys) := by
  induction xs generalizing ys with
  | nil => cases ys <;> exact h.pure _
  | cons x xs ih =>
    cases ys with
    | nil => exact h.pure _
    | cons y ys => exact h.test (h.element equal x y) (ih ys) (h.pure _)

theorem contains (h : Observing answer P) (equal : ∀ a b, P (eq a b)) (xs : List Value)
    (v : Value) : P (Equality.contains eq xs v) := by
  induction xs with
  | nil => exact h.pure _
  | cons x xs ih => exact h.test (h.element equal x v) (h.pure _) ih

theorem hit (h : Observing answer P) (equal : ∀ a b, P (eq a b)) (keptHash : HashKey)
    (kept : Value) (hash : HashKey) (sought : Value) :
    P (Equality.hit eq keptHash kept hash sought) := by
  unfold Equality.hit
  split
  · exact h.element equal kept sought
  · exact h.pure _

theorem holds (h : Observing answer P) (equal : ∀ a b, P (eq a b)) (m : Member)
    (ms : List Member) : P (Equality.holds eq m ms) := by
  induction ms with
  | nil => exact h.pure _
  | cons u ms ih => exact h.test (h.hit equal _ _ _ _) (h.pure _) ih

theorem lookup (h : Observing answer P) (equal : ∀ a b, P (eq a b)) (hash : HashKey)
    (key : Value) (es : List Entry) : P (Equality.lookup? eq hash key es) := by
  induction es with
  | nil => exact h.pure _
  | cons e es ih => exact h.test (h.hit equal _ _ _ _) (h.pure _) ih

theorem entries (h : Observing answer P) (equal : ∀ a b, P (eq a b))
    (other es : List Entry) : P (Equality.entries eq other es) := by
  induction es with
  | nil => exact h.pure _
  | cons e es ih =>
    refine h.bind (h.lookup equal _ _ other) fun found => ?_
    cases found with
    | none => exact h.pure _
    | some u => exact h.test (h.element equal _ _) ih (h.pure _)

theorem subset (h : Observing answer P) (equal : ∀ a b, P (eq a b))
    (other ms : List Member) : P (Equality.subset eq other ms) := by
  induction ms with
  | nil => exact h.pure _
  | cons m ms ih => exact h.test (h.holds equal m other) ih (h.pure _)

theorem defaults (h : Observing answer P) (equal : ∀ a b, P (eq a b)) (x y : Option Value) :
    P (Equality.defaults eq x y) := by
  unfold Equality.defaults
  split
  · exact h.pure _
  · exact h.element equal _ _
  · exact h.pure _

theorem argumentKeys (h : Observing answer P) (equal : ∀ a b, P (eq a b))
    (a b : Equality.ArgumentKey) : P (Equality.argumentKeys eq a b) := by
  refine h.test (h.element equal a.name b.name) ?_ (h.pure false)
  refine h.test (h.element equal a.type b.type) ?_ (h.pure false)
  refine h.test (h.element equal a.description b.description) ?_ (h.pure false)
  refine h.test (h.element equal a.hasDefault b.hasDefault) ?_ (h.pure false)
  exact h.defaults equal a.default b.default

theorem directives (h : Observing answer P) (equal : ∀ a b, P (eq a b)) (a b : Directive) :
    P (Equality.directives eq a b) := by
  refine h.test (h.element equal a.name b.name) ?_ (h.pure false)
  refine h.test (h.element equal a.description b.description) ?_ (h.pure false)
  refine h.test (h.element equal a.locations.value b.locations.value) ?_ (h.pure false)
  exact h.element equal a.args.value b.args.value

end

theorem argumentKey (h : Observing answer P) (ws : List Value) (r : Ref .argument) :
    P (Equality.argumentKey ⟨ws, answer⟩ r) :=
  h.bind (h.argumentName r) fun _ => h.bind (h.type ws r) fun _ =>
    h.bind (h.argumentDescription r) fun _ => h.bind (h.argumentHasDefault r) fun _ =>
      h.look (fun e => by simp only [e.default]) fun _ => h.pure _

theorem equalWithin (h : Observing answer P) (ws : List Value) (n : Nat) (a b : Value) :
    P (Equality.equalWithin ⟨ws, answer⟩ n a b) := by
  induction n generalizing a b with
  | zero => exact h.throw _
  | succ n ih =>
    simp only [Equality.equalWithin]
    split
    · split
      · exact h.pure _
      · split
        · exact h.pure _
        · exact h.bind (h.wrapped ws _ _) fun t => h.bind (h.wrapped ws _ _) (ih t)
    · split
      · exact h.pure _
      · exact h.bind (h.argumentKey ws _) fun _ => h.bind (h.argumentKey ws _) fun _ =>
          h.argumentKeys ih _ _
    · split
      · exact h.pure _
      · exact h.look (fun e => by simp only [e.directive]) fun _ => h.directives ih _ _
    · refine h.look (fun e => by simp only [e.list]) fun _ => ?_
      refine h.look (fun e => by simp only [e.list]) fun _ => ?_
      split
      · exact h.rows ih _ _
      · exact h.pure _
    · refine h.look (fun e => by simp only [e.set]) fun _ => ?_
      refine h.look (fun e => by simp only [e.set]) fun _ => ?_
      split
      · exact h.subset ih _ _
      · exact h.pure _
    · refine h.look (fun e => by simp only [e.dict]) fun _ => ?_
      refine h.look (fun e => by simp only [e.dict]) fun _ => ?_
      split
      · exact h.entries ih _ _
      · exact h.pure _
    · split
      · exact h.rows ih _ _
      · exact h.pure _
      · exact h.pure _

theorem equal (h : Observing answer P) (ws : List Value) (a b : Value) :
    P (Equality.equal ⟨ws, answer⟩ a b) :=
  h.boundedPairs fun n => h.equalWithin ws n a b

theorem member (h : Observing answer P) (ws : List Value) (xs : List Value) (v : Value) :
    P (Equality.member ⟨ws, answer⟩ xs v) :=
  h.contains (h.equal ws) xs v

/-! ### Hash keys and containers -/

theorem hashWithin (h : Observing answer P) (ws : List Value) (n : Nat) (v : Value) :
    P (HashKey.ofWithin ⟨ws, answer⟩ n v) := by
  induction n generalizing v with
  | zero => exact h.throw _
  | succ n ih =>
    cases v with
    | tuple tag items => exact h.bind (h.mapM ih _) fun _ => h.pure _
    | config tag name locations args description => exact h.bind (h.mapM ih _) fun _ => h.pure _
    | wrapper w r => exact h.bind (h.wrapped ws w r) fun t => h.bind (ih t) fun _ => h.pure _
    | argument r =>
      exact h.bind (h.argumentName r) fun _ => h.bind (h.type ws r) fun _ =>
        h.bind (ih _) fun _ => h.bind (ih _) fun _ => h.pure _
    | directive r =>
      exact h.look (fun e => by simp only [e.directive]) fun _ =>
        h.bind (ih _) fun _ => h.bind (ih _) fun _ => h.pure _
    | list | set | dict => exact h.throw _
    | _ => exact h.pure _

theorem hash (h : Observing answer P) (ws : List Value) (v : Value) :
    P (HashKey.of ⟨ws, answer⟩ v) :=
  h.boundedPairs fun n => h.hashWithin ws n v

theorem isTruthy (h : Observing answer P) (v : Value) : P (Container.isTruthy v) := by
  cases v with
  | list => exact h.look (fun e => by simp only [e.list]) fun _ => h.pure _
  | set => exact h.look (fun e => by simp only [e.set]) fun _ => h.pure _
  | dict => exact h.look (fun e => by simp only [e.dict]) fun _ => h.pure _
  | _ => exact h.pure _

theorem elements (h : Observing answer P) (v : Value) : P (Container.elements v) := by
  unfold Container.elements
  split
  · exact h.look (fun e => by simp only [e.list]) fun _ => h.pure _
  · exact h.look (fun e => by simp only [e.set]) fun _ => h.pure _
  · exact h.look (fun e => by simp only [e.dict]) fun _ => h.pure _
  · exact h.pure _
  · split
    · exact h.pure _
    · exact h.pure _
    · exact h.throw _

theorem addMember (h : Observing answer P) (ws : List Value) (ms : List Member) (v : Value) :
    P (Container.addMember ⟨ws, answer⟩ ms v) :=
  h.bind (h.hash ws v) fun _ => h.test (h.holds (h.equal ws) _ _) (h.pure _) (h.pure _)

theorem distinct (h : Observing answer P) (ws : List Value) (items : List Value) :
    P (Container.distinct ⟨ws, answer⟩ items) :=
  h.foldlM (h.addMember ws) items []

theorem put (h : Observing answer P) (ws : List Value) (e : Entry) (es : List Entry) :
    P (Container.put ⟨ws, answer⟩ e es) := by
  induction es with
  | nil => exact h.pure _
  | cons e' es ih =>
    exact h.test (h.hit (h.equal ws) _ _ _ _) (h.pure _) (h.bind ih fun _ => h.pure _)

theorem assign (h : Observing answer P) (ws : List Value) (es : List Entry) (k v : Value) :
    P (Container.assign ⟨ws, answer⟩ es k v) :=
  h.bind (h.hash ws k) fun _ => h.put ws _ es

theorem dictionary (h : Observing answer P) (ws : List Value) (pairs : List (Value × Value)) :
    P (Container.dictionary ⟨ws, answer⟩ pairs) :=
  h.foldlM (fun es (p : Value × Value) => h.assign ws es p.1 p.2) pairs []

theorem valueAt (h : Observing answer P) (ws : List Value) (es : List Entry) (k : Value) :
    P (Container.valueAt? ⟨ws, answer⟩ es k) :=
  h.bind (h.hash ws k) fun _ => h.lookup (h.equal ws) _ _ es

/-! ### Directives -/

theorem assertName (h : Observing answer P) (ws : List Value) (v : Value) :
    P (Directives.assertName ⟨ws, answer⟩ v) := by
  unfold Directives.assertName
  split
  · exact h.pure _
  · exact h.bind (h.label ws v) fun _ => h.throw _

theorem appliesTo (h : Observing answer P) (ws : List Value) (r : Ref .directive) (v : Value) :
    P (Directives.appliesTo ⟨ws, answer⟩ r v) :=
  h.look (fun e => by simp only [e.directive]) fun _ => h.member ws _ v

theorem isSpecified (h : Observing answer P) (v : Value) : P (Directives.isSpecified v) := by
  unfold Directives.isSpecified
  split
  · exact h.look (fun e => by simp only [e.directive]) fun _ => h.pure _
  · exact h.pure _

theorem argumentNameOrFault (h : Observing answer P) (ws : List Value) (r : Ref .argument) :
    P (Validation.argumentName ⟨ws, answer⟩ r) :=
  h.tryCatch (h.bind (h.argumentName r) fun _ => h.bind (h.assertName ws _) fun _ => h.pure _)
    fun _ => h.throw _

theorem checkArguments (h : Observing answer P) (ws : List Value) (directive : String)
    (seen : List String) (vs : List Value) :
    P (Validation.checkArguments ⟨ws, answer⟩ directive seen vs) := by
  induction vs generalizing seen with
  | nil => exact h.pure _
  | cons v vs ih =>
    simp only [Validation.checkArguments]
    refine h.bind (h.label ws v) fun _ => ?_
    split
    · refine h.bind (h.argumentNameOrFault ws _) fun _ => ?_
      split
      · exact h.throwFirst _
      · refine h.bind (h.type ws _) fun _ => h.bind (h.isInput ws _) fun ok => ?_
        refine h.bind (h.type ws _) fun _ => h.bind (h.label ws _) fun _ => ?_
        split
        · exact ih _
        · exact h.throwFirst _
    · exact h.throw _

end Observing

namespace Validating

theorem warnUnknown (h : Validating answer P) (ws : List Value) (name : String) (v : Value) :
    P (Validation.warnUnknown ⟨ws, answer⟩ name v) :=
  h.tryCatch (h.bind (h.literal ws v) fun _ => h.warn _ rfl) fun _ => h.pure _

theorem warnLocations (h : Validating answer P) (ws : List Value) (name : String)
    (vs : List Value) : P (Validation.warnLocations ⟨ws, answer⟩ name vs) := by
  induction vs with
  | nil => exact h.pure _
  | cons v vs ih =>
    simp only [Validation.warnLocations]
    split
    · exact ih
    · exact h.bind (h.warnUnknown ws name v) fun _ => ih

theorem checkLocations (h : Validating answer P) (ws : List Value) (name : String)
    (vs : List Value) : P (Validation.checkLocations ⟨ws, answer⟩ name vs) := by
  simp only [Validation.checkLocations]
  split
  · exact h.bind (h.warn _ rfl) fun _ => h.warnLocations ws name vs
  · exact h.warnLocations ws name vs

theorem checkDirectives (h : Validating answer P) (ws : List Value) (seen : List String)
    (vs : List Value) : P (Validation.checkDirectives ⟨ws, answer⟩ seen vs) := by
  induction vs generalizing seen with
  | nil => exact h.pure _
  | cons v vs ih =>
    simp only [Validation.checkDirectives]
    refine h.bind (h.literal ws v) fun _ => ?_
    split
    · refine h.look (fun e => by simp only [e.directive]) fun _ => ?_
      split
      · exact h.throwFirst _
      · exact h.bind (h.checkLocations ws _ _) fun _ =>
          h.bind (h.checkArguments ws _ _ _) fun _ => ih _
    · exact h.throw _

theorem validate (h : Validating answer P) (ws : List Value) (v : Value) :
    P (Validation.validate ⟨ws, answer⟩ v) :=
  h.bind (h.elements v) fun vs => h.checkDirectives ws [] vs

end Validating

/-! ### Later sessions -/

/-- The sessions that observation leads to. -/
inductive Later (answer : List Value → Deferred → Action Value) (s : Session) : Session → Prop where
  | refl : Later answer s s
  | wrapped {s' : Session} (ws : List Value) (w : Wrapper) (r : Ref .wrapper) :
      Later answer s s' → Later answer s ((Types.wrapped ⟨ws, answer⟩ w r).after s')
  | type {s' : Session} (ws : List Value) (r : Ref .argument) :
      Later answer s s' → Later answer s ((Arguments.type ⟨ws, answer⟩ r).after s')
  | note {s' : Session} (n : Notice) :
      Later answer s s' → Later answer s ((Action.note n).after s')

namespace Later

variable {s s' s'' : Session}

theorem trans (h : Later answer s s') (h' : Later answer s' s'') : Later answer s s'' := by
  induction h' with
  | refl => exact h
  | wrapped ws w r _ ih => exact .wrapped ws w r ih
  | type ws r _ ih => exact .type ws r ih
  | note n _ ih => exact .note n ih

/-- Every observation leads to a later session. -/
theorem observed (answer : List Value → Deferred → Action Value) : Observed answer (Later answer) :=
  { refl := fun _ => .refl
    trans := .trans
    wrapped := fun ws w r _ => .wrapped ws w r .refl
    type := fun ws r _ => .type ws r .refl
    note := fun n _ => .note n .refl }

/-- What is kept by resolving types and by giving notices holds of every later session. -/
theorem keeps (h : Later answer s s') (kept : Observed answer R) : R s s' := by
  induction h with
  | refl => exact kept.refl s
  | wrapped ws w r _ ih => exact kept.trans ih (kept.wrapped ws w r _)
  | type ws r _ ih => exact kept.trans ih (kept.type ws r _)
  | note n _ ih => exact kept.trans ih (kept.note n _)

end Later

end DirectiveSchema

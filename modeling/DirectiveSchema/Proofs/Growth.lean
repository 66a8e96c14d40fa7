import DirectiveSchema.Evaluation
import DirectiveSchema.Proofs.Observation

/-!
Evaluating declaration expressions. An evaluation observes data, and adds objects to the session:
it never changes one that exists. A relation that new objects, notices and counted calls keep, and
that is kept when a type is resolved by answers which keep it, is kept by every evaluation, and so
by the calls of deferred types.
-/
namespace DirectiveSchema

variable {answer : List Value → Deferred → Action Value}
  {P : {α : Type} → Action α → Prop} {R : Session → Session → Prop}

/-- A datum that may be what a source resolves to: itself, or whatever a deferred type answers. -/
def MayResolve (source t : Value) : Prop := t = source ∨ ∃ d, source = .deferred d

/-- What a demand answers may be what its source resolves to. -/
theorem mayResolve_of_demand {supply : Supplier} {source t : Value} {s s' : Session}
    (h : Types.demand supply source s = .ok t s') : MayResolve source t := by
  cases source with
  | deferred d => exact .inr ⟨d, rfl⟩
  | _ =>
    cases h
    exact .inl rfl

namespace Lasting

theorem demand (h : Lasting R) (answers : ∀ ws d, Keeps R (answer ws d)) (ws : List Value)
    (v : Value) : Keeps R (Types.demand ⟨ws, answer⟩ v) := by
  cases v with
  | deferred d => exact answers ws d
  | _ => exact h.pure _

/-- The type of a wrapper is put into its cell when the answer is there. The cell may have been
resolved in the meantime, so what counts is that it was not before the answer was asked for. -/
theorem wrappedBy (h : Lasting R) {ws : List Value}
    (put : ∀ {s s' : Session} {r : Ref .wrapper} {source t : Value}, R s s' →
      (s.wrapper r).resolved = none → (s.wrapper r).source = some source →
      Types.demand ⟨ws, answer⟩ source s = .ok t s' →
        R s (s'.putWrapper r { s'.wrapper r with resolved := Types.kept t }))
    (answers : ∀ ws d, Keeps R (answer ws d)) (w : Wrapper) (r : Ref .wrapper) :
    Keeps R (Types.wrapped ⟨ws, answer⟩ w r) := by
  intro s
  cases unresolved : (s.wrapper r).resolved with
  | some t =>
    rw [Action.after_of_ok (Types.wrapped_of_resolved unresolved)]
    exact h.refl s
  | none =>
    cases based : (s.wrapper r).source with
    | none =>
      rw [Action.after_of_error (Types.wrapped_of_blank unresolved based)]
      exact h.refl s
    | some source =>
      have demanded := h.demand answers ws source
      cases answered : Types.demand ⟨ws, answer⟩ source s with
      | ok t s' =>
        rw [Action.after_of_ok (Types.wrapped_of_demand unresolved based answered)]
        exact put (demanded.of_ok answered) unresolved based answered
      | error f s' =>
        rw [Action.after_of_error (Types.wrapped_of_fault unresolved based answered)]
        exact demanded.of_error answered

theorem wrapped (h : Lasting R)
    (put : ∀ {s s' : Session} {r : Ref .wrapper} {source t : Value}, R s s' →
      (s.wrapper r).resolved = none → (s.wrapper r).source = some source → MayResolve source t →
        R s (s'.putWrapper r { s'.wrapper r with resolved := Types.kept t }))
    (answers : ∀ ws d, Keeps R (answer ws d)) (ws : List Value) (w : Wrapper)
    (r : Ref .wrapper) : Keeps R (Types.wrapped ⟨ws, answer⟩ w r) :=
  h.wrappedBy (fun kept unresolved based answered =>
    put kept unresolved based (mayResolve_of_demand answered)) answers w r

theorem typeBy (h : Lasting R) {ws : List Value}
    (put : ∀ {s s' : Session} {q : Ref .argument} {t : Value}, R s s' →
      (s.argument q).resolved = none →
      Types.demand ⟨ws, answer⟩ (s.argument q).source s = .ok t s' →
        R s (s'.putArgument q { s'.argument q with resolved := Types.kept t }))
    (answers : ∀ ws d, Keeps R (answer ws d)) (q : Ref .argument) :
    Keeps R (Arguments.type ⟨ws, answer⟩ q) := by
  intro s
  cases unresolved : (s.argument q).resolved with
  | some t =>
    rw [Action.after_of_ok (Arguments.type_of_resolved unresolved)]
    exact h.refl s
  | none =>
    have demanded := h.demand answers ws (s.argument q).source
    cases answered : Types.demand ⟨ws, answer⟩ (s.argument q).source s with
    | ok t s' =>
      rw [Action.after_of_ok (Arguments.type_of_demand unresolved answered)]
      exact put (demanded.of_ok answered) unresolved answered
    | error f s' =>
      rw [Action.after_of_error (Arguments.type_of_fault unresolved answered)]
      exact demanded.of_error answered

theorem type (h : Lasting R)
    (put : ∀ {s s' : Session} {q : Ref .argument} {t : Value}, R s s' →
      (s.argument q).resolved = none → MayResolve (s.argument q).source t →
        R s (s'.putArgument q { s'.argument q with resolved := Types.kept t }))
    (answers : ∀ ws d, Keeps R (answer ws d)) (ws : List Value) (q : Ref .argument) :
    Keeps R (Arguments.type ⟨ws, answer⟩ q) :=
  h.typeBy (fun kept unresolved answered =>
    put kept unresolved (mayResolve_of_demand answered)) answers q

end Lasting

/-- What becomes of a directive that passed all checks: its texts are made, and it is built and noted. -/
def Directives.register (supply : Supplier) (c : Directive) : Action (Ref .directive) := do
  let shownName ← Display.label supply c.name
  let shownLocations ← c.locations.items.mapM (Display.label supply)
  let r ← Action.newDirective c
  Action.note (.created shownName shownLocations)
  return r

/-- A class of actions that may add anything but directives to a session. An argument that is added
tells whether it has a default. -/
structure Stocking (P : {α : Type} → Action α → Prop) : Prop extends Closed P where
  freshTag : P Action.freshTag
  newList (items : List Value) : P (Action.newList items)
  newSet (items : List Member) : P (Action.newSet items)
  newDict (entries : List Entry) : P (Action.newDict entries)
  newNamedType (c : NamedType) : P (Action.newNamedType c)
  newScalar (c : ScalarType) : P (Action.newScalar c)
  newWrapper (c : WrappingType) : P (Action.newWrapper c)
  createArgument (name source : Value) (default : Option Value) (description : Value) :
    P (Arguments.create name source default description)
  count (counter : String) :
    P (modify fun s => { s with calls := counter :: s.calls } : Action Unit)

/-- A class of actions that may also build directives. -/
structure Building (P : {α : Type} → Action α → Prop) : Prop extends Stocking P where
  register {answer : List Value → Deferred → Action Value} (reading : Observing answer P)
    (ws : List Value) (c : Directive) : P (Directives.register ⟨ws, answer⟩ c)

theorem Observing.register (h : Observing answer P) {c : Directive}
    (new : P (Action.newDirective c))
    (created : ∀ name locations, P (Action.note (.created name locations))) (ws : List Value) :
    P (Directives.register ⟨ws, answer⟩ c) :=
  h.bind (h.label ws _) fun _ => h.bind (h.mapM (h.label ws) _) fun _ => h.bind new fun _ =>
    h.bind (created _ _) fun _ => h.pure _

/-- A class of actions that may add anything, directives and their notices one by one. -/
structure Adding (P : {α : Type} → Action α → Prop) : Prop extends Building P where
  newArgument (c : Argument) : P (Action.newArgument c)
  createArgument := fun _ _ _ _ => newArgument _
  newDirective (c : Directive) : P (Action.newDirective c)
  created (name : String) (locations : List String) : P (Action.note (.created name locations))
  register := fun reading ws c => reading.register (newDirective c) created ws

/-- A relation that is kept when something is built. -/
structure Enlargement (R : Session → Session → Prop) : Prop
    extends Lasting R, Building (Keeps R) where
  pure := Lasting.pure ⟨refl, trans⟩
  throw := Lasting.throw ⟨refl, trans⟩
  bind := Lasting.bind ⟨refl, trans⟩
  tryCatch := Lasting.tryCatch ⟨refl, trans⟩
  look := fun _ => Lasting.bindGet ⟨refl, trans⟩

/-- A relation that is kept when something is added to a session. -/
structure Addition (R : Session → Session → Prop) : Prop
    extends Enlargement R, Adding (Keeps R)

/-! ### Additions -/

namespace Stocking

theorem newRow (h : Stocking P) (items : List Value) : P (Action.newRow items) := by
  cases items with
  | nil => exact h.pure _
  | cons v vs => exact h.bind h.freshTag fun _ => h.pure _

theorem wrap (h : Stocking P) (w : Wrapper) (source : Value) : P (Types.wrap w source) := by
  simp only [Types.wrap]
  split
  · exact h.throwFirst _
  · exact h.bind (h.newWrapper _) fun _ => h.pure _

theorem rowOf (h : Stocking P) (reading : Observing answer P) (v : Value) :
    P (Directives.rowOf v) := by
  have elements := reading.elements v
  unfold Directives.rowOf
  split
  · exact h.pure _
  · exact h.bind elements h.newRow

theorem argsOf (h : Stocking P) (reading : Observing answer P) (v : Value) :
    P (Directives.argsOf v) := by
  unfold Directives.argsOf
  split
  · exact h.newRow _
  · exact h.rowOf reading v

theorem toConfig (h : Stocking P) (r : Ref .directive) : P (Directives.toConfig r) :=
  h.look (fun e => by simp only [e.directive]) fun _ => h.bind (h.newList _) fun _ =>
    h.bind (h.newList _) fun _ => h.bind h.freshTag fun _ => h.pure _

theorem lookup (h : Stocking P) (name : String) : P (Expression.lookup name) :=
  h.look (fun e => by simp only [e.binding?]) fun s => by
    split
    · exact h.pure _
    · exact h.throw _

theorem buildArgument (h : Stocking P) (name type default description : Option Value) :
    P (Expression.buildArgument name type default description) := by
  unfold Expression.buildArgument
  split
  · exact h.bind (h.createArgument _ _ _ _) fun _ => h.pure _
  · exact h.throw _

theorem buildScalar (h : Stocking P) (name : Option Value) (serialize parse : Coercion)
    (description : Option Value) :
    P (Expression.buildScalar name serialize parse description) := by
  unfold Expression.buildScalar
  split
  · exact h.bind (h.newScalar _) fun _ => h.pure _
  · exact h.throw _

end Stocking

namespace Building

/-- Whatever else a constructor does, the directive is registered in the end. -/
theorem createDirective (h : Building P) (reading : Observing answer P) (ws : List Value)
    (name locations args description : Value) :
    P (Directives.create ⟨ws, answer⟩ name locations args description) := by
  simp only [Directives.create]
  refine h.bind (reading.isTruthy name) fun named => ?_
  cases named with
  | false => exact h.throwFirst _
  | true =>
    refine h.bind (reading.assertName ws name) fun name => ?_
    split
    · refine h.bind (h.argsOf reading args) fun args => ?_
      refine h.bind (h.rowOf reading locations) fun row => ?_
      exact h.register reading ws ⟨name.val, name.property, description, row, args⟩
    · exact h.throwFirst _

theorem buildDirective (h : Building P) (reading : Observing answer P) (ws : List Value)
    (route : Route) (name locations args description : Option Value) :
    P (Expression.buildDirective ⟨ws, answer⟩ route name locations args description) := by
  unfold Expression.buildDirective
  split
  · exact h.bind (h.createDirective reading ws _ _ _ _) fun _ => h.pure _
  · exact h.throw _

end Building

mutual

/-- Whether an evaluation may read types: a set and a dictionary compare and hash what is put into
them, and a directive writes its locations. -/
def Expression.readsTypes : Expression → Bool
  | .set _ | .dict _ | .directive _ _ _ _ _ => true
  | .list items | .tuple items => readTypes items
  | .type t => t.readsTypes
  | .argument name type default description =>
    fieldReadsTypes name || typeFieldReadsTypes type || fieldReadsTypes default ||
      fieldReadsTypes description
  | _ => false

def TypeExpression.readsTypes : TypeExpression → Bool
  | .wrap _ t => t.readsTypes
  | .scalar name serialize parse description =>
    fieldReadsTypes name || serialize.readsTypes || parse.readsTypes || fieldReadsTypes description
  | .value v => v.readsTypes
  | _ => false

def CoercionExpression.readsTypes : CoercionExpression → Bool
  | .constant v => v.readsTypes
  | _ => false

def readTypes : List Expression → Bool
  | [] => false
  | e :: es => e.readsTypes || readTypes es

def fieldReadsTypes : Option Expression → Bool
  | none => false
  | some e => e.readsTypes

def typeFieldReadsTypes : Option TypeExpression → Bool
  | none => false
  | some t => t.readsTypes

end

mutual

/-- Whether an evaluation builds directives. -/
def Expression.builds : Expression → Bool
  | .directive _ _ _ _ _ => true
  | .list items | .tuple items | .set items => anyBuilds items
  | .dict entries => anyEntryBuilds entries
  | .type t => t.builds
  | .argument name type default description =>
    fieldBuilds name || typeFieldBuilds type || fieldBuilds default || fieldBuilds description
  | _ => false

/-- A deferred type builds nothing before it is called. -/
def TypeExpression.builds : TypeExpression → Bool
  | .wrap _ t => t.builds
  | .scalar name serialize parse description =>
    fieldBuilds name || serialize.builds || parse.builds || fieldBuilds description
  | .value v => v.builds
  | _ => false

def CoercionExpression.builds : CoercionExpression → Bool
  | .constant v => v.builds
  | _ => false

def anyBuilds : List Expression → Bool
  | [] => false
  | e :: es => e.builds || anyBuilds es

def anyEntryBuilds : List (Expression × Expression) → Bool
  | [] => false
  | (k, v) :: es => k.builds || v.builds || anyEntryBuilds es

def fieldBuilds : Option Expression → Bool
  | none => false
  | some e => e.builds

def typeFieldBuilds : Option TypeExpression → Bool
  | none => false
  | some t => t.builds

end

namespace Stocking

mutual

/-- What is evaluated adds to the session. It observes data only to build sets, dictionaries and
directives. -/
theorem eval (h : Stocking P) (ws : List Value) (e : Expression)
    (reads : e.readsTypes = true → Observing answer P) (builds : e.builds = true → Building P) :
    P (e.eval ⟨ws, answer⟩) := by
  cases e with
  | null | bool | int | text | bytes | location => exact h.pure _
  | float x =>
    cases x with
    | nan => exact h.bind h.freshTag fun _ => h.pure _
    | finite | infinite => exact h.pure _
  | foreign text => exact h.bind h.freshTag fun _ => h.pure _
  | list items =>
    exact h.bind (h.evalAll ws items reads builds) fun _ =>
      h.bind (h.newList _) fun _ => h.pure _
  | tuple items =>
    exact h.bind (h.evalAll ws items reads builds) fun _ => h.bind (h.newRow _) fun _ => h.pure _
  | set items =>
    refine h.bind (h.evalAll ws items (fun _ => reads rfl) builds) fun _ => ?_
    refine h.bind ((reads rfl).distinct ws _) fun _ => ?_
    exact h.bind (h.newSet _) fun _ => h.pure _
  | dict entries =>
    refine h.bind (h.evalEntries (reads rfl) ws entries builds) fun _ => ?_
    refine h.bind ((reads rfl).dictionary ws _) fun _ => ?_
    exact h.bind (h.newDict _) fun _ => h.pure _
  | ref name => exact h.lookup name
  | type t => exact h.evalType ws t reads builds
  | argument name type default description =>
    simp only [Expression.readsTypes, Bool.or_eq_true] at reads
    simp only [Expression.builds, Bool.or_eq_true] at builds
    refine h.bind (h.evalField ws name (fun r => reads (.inl (.inl (.inl r))))
      fun b => builds (.inl (.inl (.inl b)))) fun _ => ?_
    refine h.bind (h.evalTypeField ws type (fun r => reads (.inl (.inl (.inr r))))
      fun b => builds (.inl (.inl (.inr b)))) fun _ => ?_
    refine h.bind (h.evalField ws default (fun r => reads (.inl (.inr r)))
      fun b => builds (.inl (.inr b))) fun _ => ?_
    refine h.bind (h.evalField ws description (fun r => reads (.inr r))
      fun b => builds (.inr b)) fun _ => ?_
    exact h.buildArgument _ _ _ _
  | directive route name locations args description =>
    have reading := reads rfl
    have building := builds rfl
    refine h.bind (h.evalField ws name (fun _ => reading) fun _ => building) fun _ => ?_
    refine h.bind (h.evalField ws locations (fun _ => reading) fun _ => building) fun _ => ?_
    refine h.bind (h.evalField ws args (fun _ => reading) fun _ => building) fun _ => ?_
    refine h.bind (h.evalField ws description (fun _ => reading) fun _ => building) fun _ => ?_
    exact building.buildDirective reading ws route _ _ _ _

theorem evalType (h : Stocking P) (ws : List Value) (t : TypeExpression)
    (reads : t.readsTypes = true → Observing answer P) (builds : t.builds = true → Building P) :
    P (t.eval ⟨ws, answer⟩) := by
  cases t with
  | ref name => exact h.lookup name
  | wrap w t => exact h.bind (h.evalType ws t reads builds) fun _ => h.wrap w _
  | named name => exact h.bind (h.newNamedType _) fun _ => h.pure _
  | scalar name serialize parse description =>
    simp only [TypeExpression.readsTypes, Bool.or_eq_true] at reads
    simp only [TypeExpression.builds, Bool.or_eq_true] at builds
    refine h.bind (h.evalField ws name (fun r => reads (.inl (.inl (.inl r))))
      fun b => builds (.inl (.inl (.inl b)))) fun _ => ?_
    refine h.bind (h.evalCoercion ws serialize (fun r => reads (.inl (.inl (.inr r))))
      fun b => builds (.inl (.inl (.inr b)))) fun _ => ?_
    refine h.bind (h.evalCoercion ws parse (fun r => reads (.inl (.inr r)))
      fun b => builds (.inl (.inr b))) fun _ => ?_
    refine h.bind (h.evalField ws description (fun r => reads (.inr r))
      fun b => builds (.inr b)) fun _ => ?_
    exact h.buildScalar _ _ _ _
  | value v => exact h.eval ws v reads builds
  | deferred counter t => exact h.bind h.freshTag fun _ => h.pure _
  | raising kind message => exact h.throw _

theorem evalCoercion (h : Stocking P) (ws : List Value) (c : CoercionExpression)
    (reads : c.readsTypes = true → Observing answer P) (builds : c.builds = true → Building P) :
    P (c.eval ⟨ws, answer⟩) := by
  cases c with
  | constant v => exact h.bind (h.eval ws v reads builds) fun _ => h.pure _
  | _ => exact h.pure _

theorem evalAll (h : Stocking P) (ws : List Value) (es : List Expression)
    (reads : readTypes es = true → Observing answer P) (builds : anyBuilds es = true → Building P) :
    P (DirectiveSchema.evalAll ⟨ws, answer⟩ es) := by
  cases es with
  | nil => exact h.pure _
  | cons e es =>
    simp only [readTypes, Bool.or_eq_true] at reads
    simp only [anyBuilds, Bool.or_eq_true] at builds
    refine h.bind (h.eval ws e (fun r => reads (.inl r)) fun b => builds (.inl b)) fun _ => ?_
    exact h.bind (h.evalAll ws es (fun r => reads (.inr r)) fun b => builds (.inr b)) fun _ =>
      h.pure _

theorem evalEntries (h : Stocking P) (reading : Observing answer P) (ws : List Value)
    (es : List (Expression × Expression)) (builds : anyEntryBuilds es = true → Building P) :
    P (DirectiveSchema.evalEntries ⟨ws, answer⟩ es) := by
  cases es with
  | nil => exact h.pure _
  | cons p es =>
    obtain ⟨k, v⟩ := p
    simp only [anyEntryBuilds, Bool.or_eq_true] at builds
    refine h.bind (h.eval ws k (fun _ => reading) fun b => builds (.inl (.inl b))) fun _ => ?_
    refine h.bind (h.eval ws v (fun _ => reading) fun b => builds (.inl (.inr b))) fun _ => ?_
    exact h.bind (h.evalEntries reading ws es fun b => builds (.inr b)) fun _ => h.pure _

theorem evalField (h : Stocking P) (ws : List Value) (e : Option Expression)
    (reads : fieldReadsTypes e = true → Observing answer P)
    (builds : fieldBuilds e = true → Building P) :
    P (DirectiveSchema.evalField ⟨ws, answer⟩ e) := by
  cases e with
  | none => exact h.pure _
  | some e => exact h.bind (h.eval ws e reads builds) fun _ => h.pure _

theorem evalTypeField (h : Stocking P) (ws : List Value) (t : Option TypeExpression)
    (reads : typeFieldReadsTypes t = true → Observing answer P)
    (builds : typeFieldBuilds t = true → Building P) :
    P (DirectiveSchema.evalTypeField ⟨ws, answer⟩ t) := by
  cases t with
  | none => exact h.pure _
  | some t => exact h.bind (h.evalType ws t reads builds) fun _ => h.pure _

end

end Stocking

/-- The call of a deferred type is counted, and its body is evaluated. -/
theorem Building.evaluate (h : Building P) (ws : List Value) (d : Deferred)
    (reads : d.body.readsTypes = true → Observing answer P) : P (d.evaluate ⟨ws, answer⟩) :=
  h.bind (h.count d.counter) fun _ => h.evalType ws d.body reads fun _ => h

/-! ### Growth -/

/-- A relation that is kept when something is built, and when types are resolved. -/
structure Answered (R : Session → Session → Prop) : Prop extends Enlargement R where
  wrapped {answer : List Value → Deferred → Action Value}
    (answers : ∀ ws d, Keeps R (answer ws d)) (ws : List Value) (w : Wrapper)
    (r : Ref .wrapper) : Keeps R (Types.wrapped ⟨ws, answer⟩ w r)
  type {answer : List Value → Deferred → Action Value}
    (answers : ∀ ws d, Keeps R (answer ws d)) (ws : List Value) (r : Ref .argument) :
    Keeps R (Arguments.type ⟨ws, answer⟩ r)

/-- A relation that is kept when something is added to a session, and when types are resolved. -/
structure Calling (R : Session → Session → Prop) : Prop extends Addition R, Answered R

/-- Such a relation that is also kept by any notice. -/
structure Growth (R : Session → Session → Prop) : Prop extends Calling R where
  note (n : Notice) : Keeps R (Action.note n)
  created := fun name locations => note (.created name locations)

namespace Answered

theorem resolving (h : Answered R) (answers : ∀ ws d, Keeps R (answer ws d)) :
    Resolving answer R :=
  { h.toLasting with
    wrapped := h.wrapped answers
    type := h.type answers }

theorem evaluate (h : Answered R) (answers : ∀ ws d, Keeps R (answer ws d)) (ws : List Value)
    (d : Deferred) : Keeps R (d.evaluate ⟨ws, answer⟩) :=
  h.toBuilding.evaluate ws d fun _ => (h.resolving answers).toObserving

/-- The induction is on the calls that may lie inside a call: an answer is an evaluation whose
types are resolved by answers with fewer calls inside. -/
theorem callWithin (h : Answered R) (n : Nat) (ws : List Value) (d : Deferred) :
    Keeps R (Deferred.callWithin n ws d) := by
  induction n generalizing ws d with
  | zero =>
    unfold Deferred.callWithin
    split
    · exact h.evaluate (fun _ _ => h.throw _) ws d
    · exact h.throw _
  | succ n ih => exact h.evaluate ih ws d

theorem call (h : Answered R) (ws : List Value) (d : Deferred) :
    Keeps R (Deferred.supplier.answer ws d) :=
  h.bounded fun n => h.callWithin n ws d

/-- What is added keeps a relation, so what resolves types does. -/
theorem reading (h : Answered R) : Resolving Deferred.supplier.answer R := h.resolving h.call

end Answered

namespace Growth

theorem observed (h : Growth R) (answers : ∀ ws d, Keeps R (answer ws d)) : Observed answer R :=
  { h.resolving answers with note := h.note }

/-- What is added keeps a relation, so what is observed does. -/
theorem supplier (h : Growth R) : Observed Deferred.supplier.answer R := h.observed h.call

end Growth

end DirectiveSchema

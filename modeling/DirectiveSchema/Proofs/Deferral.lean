import DirectiveSchema.BuiltIn
import DirectiveSchema.Proofs.Interchange
import DirectiveSchema.Proofs.Scan

/-!
Deferred types in directives. A validation reads the arguments of directives one after the other:
their names, their texts, and whether their types are input types. None of this depends on how types
are given, and so neither does how a validation ends, nor what it warns of.
-/
namespace DirectiveSchema

variable {answer : List Value → Deferred → Action Value} {b s s' : Session} {ws : List Value}
  {x v v' : Value} {r r' : Ref .directive} {q q' : Ref .argument} {k : Nat}

/-! ### Arguments of a directive -/

/-- Two arguments that a validation cannot tell apart. -/
structure Session.ReadsAlike (b : Session) (answer : List Value → Deferred → Action Value)
    (q q' : Ref .argument) : Prop where
  label (ws : List Value) : b.Accord (Display.label ⟨ws, answer⟩ (.argument q))
    (Display.label ⟨ws, answer⟩ (.argument q'))
  name (ws : List Value) : b.Accord (Validation.argumentName ⟨ws, answer⟩ q)
    (Validation.argumentName ⟨ws, answer⟩ q')
  input (ws : List Value) : b.Accord (Arguments.type ⟨ws, answer⟩ q >>= Types.isInput ⟨ws, answer⟩)
    (Arguments.type ⟨ws, answer⟩ q' >>= Types.isInput ⟨ws, answer⟩)
  shown (ws : List Value) : b.Accord (Arguments.type ⟨ws, answer⟩ q >>= Display.label ⟨ws, answer⟩)
    (Arguments.type ⟨ws, answer⟩ q' >>= Display.label ⟨ws, answer⟩)

namespace Session.ReadsAlike

theorem refl (serves : b.Serves answer) (q : Ref .argument) : b.ReadsAlike answer q q where
  label ws := serves.observing.label ws _
  name ws := serves.observing.argumentNameOrFault ws q
  input ws := (serves.observing.type ws q).bind fun t => serves.observing.isInput ws t
  shown ws := (serves.observing.type ws q).bind fun t => serves.observing.label ws t

theorem of_interchanges (h : b.InterchangesArguments x k q q') (serves : b.Serves answer) :
    b.ReadsAlike answer q q' where
  label _ := h.label serves
  name ws := by
    refine .tryCatch ?_ fun _ => .throw _
    exact h.name.bind fun name => (serves.observing.assertName ws name).bind fun _ => .pure _
  input _ := h.accord_type serves fun within => within.isInput serves
  shown _ := h.accord_type serves fun within => within.label serves

end Session.ReadsAlike

/-- One entry of a row of arguments for another. -/
inductive Session.EntryAlike (b : Session) (answer : List Value → Deferred → Action Value) :
    Value → Value → Prop where
  | argument {q q' : Ref .argument} :
      b.ReadsAlike answer q q' → EntryAlike b answer (.argument q) (.argument q')
  | other {v : Value} : v.isArgument = false → EntryAlike b answer v v

theorem Session.EntryAlike.refl (serves : b.Serves answer) (v : Value) :
    b.EntryAlike answer v v := by
  cases v with
  | argument q => exact .argument (.refl serves q)
  | _ => exact .other rfl

namespace Session.Serves

variable (serves : b.Serves answer)

include serves

/-- The induction is on the rows, in step. -/
theorem checkArguments {vs vs' : List Value} (h : List.Forall₂ (b.EntryAlike answer) vs vs')
    (directive : String) (seen : List String) :
    b.Accord (Validation.checkArguments ⟨ws, answer⟩ directive seen vs)
      (Validation.checkArguments ⟨ws, answer⟩ directive seen vs') := by
  induction h generalizing seen with
  | nil => exact .pure ()
  | @cons v v' vs vs' first _ ih =>
    cases first with
    | argument alike =>
      rw [Validation.checkArguments_argument, Validation.checkArguments_argument]
      refine (alike.label ws).bind fun _ => (alike.name ws).bind fun name => ?_
      dsimp only
      by_cases again : seen.contains (Directives.nameText name) = true
      · rw [if_pos again, if_pos again]
        exact .throw _
      · rw [if_neg again, if_neg again]
        refine (alike.input ws).bindBoth fun ok => (alike.shown ws).bindBoth fun shown => ?_
        cases ok with
        | true => exact ih _
        | false => exact .throw _
    | other notArgument =>
      have label := serves.observing.label ws v
      cases v with
      | argument => cases notArgument
      | _ => exact label.bind fun _ => .throw _

end Session.Serves

/-! ### Directives of a collection -/

/-- Two directives that a validation cannot tell apart. -/
structure Directive.ReadsAlike (b : Session) (answer : List Value → Deferred → Action Value)
    (d d' : Directive) : Prop where
  name : d.name = d'.name
  locations : d.locations.items = d'.locations.items
  args : List.Forall₂ (b.EntryAlike answer) d.args.items d'.args.items

/-- One entry of a collection for another. -/
inductive Session.MemberAlike (b : Session) (answer : List Value → Deferred → Action Value) :
    Value → Value → Prop where
  | directive {r r' : Ref .directive} :
      (∀ s s', b.Akin s s' → (s.directive r).ReadsAlike b answer (s'.directive r')) →
        MemberAlike b answer (.directive r) (.directive r')
  | other {v : Value} : v.isDirective = false → MemberAlike b answer v v

namespace Session.Serves

variable (serves : b.Serves answer)

include serves

theorem checkDirective {d d' : Directive} (h : d.ReadsAlike b answer d') {rest rest' : List Value}
    (next : ∀ seen, b.Accord (Validation.checkDirectives ⟨ws, answer⟩ seen rest)
      (Validation.checkDirectives ⟨ws, answer⟩ seen rest')) (seen : List String) (name : String) :
    b.Accord (Validation.afterDirective ⟨ws, answer⟩ d seen rest name)
      (Validation.afterDirective ⟨ws, answer⟩ d' seen rest' name) := by
  rw [Validation.afterDirective, Validation.afterDirective, h.locations]
  refine Session.Accord.bind (serves.noting.checkLocations ws name _) fun _ => ?_
  exact (serves.checkArguments h.args name []).bind fun _ => next _

/-- The induction is on the collections, in step. -/
theorem checkDirectives {vs vs' : List Value} (h : List.Forall₂ (b.MemberAlike answer) vs vs')
    (seen : List String) :
    b.Accord (Validation.checkDirectives ⟨ws, answer⟩ seen vs)
      (Validation.checkDirectives ⟨ws, answer⟩ seen vs') := by
  induction h generalizing seen with
  | nil => exact .pure ()
  | @cons v v' vs vs' first _ ih =>
    cases first with
    | @directive r r' alike =>
      rw [Validation.checkDirectives_directive, Validation.checkDirectives_directive]
      refine Session.Accord.bind (fun s s' akin => ?_) fun _ s s' akin => ?_
      · have same := alike s s' akin
        have written := serves.observing.directiveLiteral (serves.observing.label ws)
          (s'.directive r') s s' akin
        rw [Display.literal, Display.literal, Action.get_bind, Action.get_bind]
        rw [Display.directiveLiteral] at written ⊢
        rw [same.name, same.locations]
        exact written
      · have same := alike s s' akin
        rw [Action.get_bind, Action.get_bind, same.name]
        dsimp only
        by_cases again : seen.contains (Directives.nameText (s'.directive r').name) = true
        · rw [if_pos again, if_pos again]
          exact .error _ akin
        · rw [if_neg again, if_neg again]
          exact serves.checkDirective same ih seen _ s s' akin
    | other notDirective =>
      have literal := serves.observing.literal ws v
      cases v with
      | directive => cases notDirective
      | _ => exact literal.bind fun _ => .throw _

end Session.Serves

/-! ### Declarations with and without callables -/

/-- One entry of a row of arguments for another: the same datum, or an argument that takes the same
type, given without callables. -/
inductive Session.Retypes (s : Session) : Value → Value → Prop where
  | same (v : Value) : Retypes s v v
  | argument {e : TypeShape} {q q' : Ref .argument} : s.Declares s.given? e q →
      s.Declares some e q' → (s.argument q).Resembles (s.argument q') →
        Retypes s (.argument q) (.argument q')

/-- One entry of a collection for another: the same datum, or a directive with the same name and
locations, whose arguments take the same types, given without callables. -/
inductive Session.Redeclares (s : Session) : Value → Value → Prop where
  | same (v : Value) : Redeclares s v v
  | directive {r r' : Ref .directive} : r.index < s.directives.size →
      r'.index < s.directives.size → (s.directive r).name = (s.directive r').name →
        (s.directive r).locations.items = (s.directive r').locations.items →
          List.Forall₂ s.Retypes (s.directive r).args.items (s.directive r').args.items →
            Redeclares s (.directive r) (.directive r')

theorem Session.Retypes.alike (h : b.Retypes v v') (serves : b.Serves answer) :
    b.EntryAlike answer v v' := by
  cases h with
  | same => exact .refl serves v
  | argument declared declared' resembles =>
    exact .argument (.of_interchanges (declared.interchanges declared' resembles) serves)

theorem Session.Redeclares.alike (h : b.Redeclares v v') (serves : b.Serves answer) :
    b.MemberAlike answer v v' := by
  cases h with
  | same =>
    cases v with
    | directive r =>
      refine .directive fun s s' akin => ?_
      rw [akin.shows.directive r]
      exact ⟨rfl, rfl, List.forall₂_same.2 fun v _ => .refl serves v⟩
    | _ => exact .other rfl
  | directive live live' name locations args =>
    refine .directive fun s s' akin => ?_
    rw [akin.left.extension.directive live, akin.right.extension.directive live']
    exact ⟨name, locations, args.imp fun _ _ retyped => retyped.alike serves⟩

/-- Types that nothing tells apart but their identity. -/
structure Session.SameType (s : Session) (v v' : Value) : Prop where
  equal : (Equality.equal Deferred.supplier v v').result? s = some true
  equal' : (Equality.equal Deferred.supplier v' v).result? s = some true
  hash : (HashKey.of Deferred.supplier v).outcome s = (HashKey.of Deferred.supplier v').outcome s
  label : (Display.label Deferred.supplier v).outcome s =
    (Display.label Deferred.supplier v').outcome s
  literal : (Display.literal Deferred.supplier v).outcome s =
    (Display.literal Deferred.supplier v').outcome s
  unwrap : (Types.unwrap Deferred.supplier v).outcome s =
    (Types.unwrap Deferred.supplier v').outcome s
  isInput : (Types.isInput Deferred.supplier v).outcome s =
    (Types.isInput Deferred.supplier v').outcome s
  nullable : (Types.nullable Deferred.supplier v).outcome s =
      (Types.nullable Deferred.supplier v').outcome s ∨
    (do
      let t ← Types.nullable Deferred.supplier v
      let t' ← Types.nullable Deferred.supplier v'
      Equality.equal Deferred.supplier t t').result? s = some true

/-- Arguments that nothing tells apart but their identity. -/
structure Session.SameArgument (s : Session) (q q' : Ref .argument) : Prop where
  equal : (Equality.equal Deferred.supplier (.argument q) (.argument q')).result? s = some true
  equal' : (Equality.equal Deferred.supplier (.argument q') (.argument q)).result? s = some true
  hash : (HashKey.of Deferred.supplier (.argument q)).outcome s =
    (HashKey.of Deferred.supplier (.argument q')).outcome s
  label : (Display.label Deferred.supplier (.argument q)).outcome s =
    (Display.label Deferred.supplier (.argument q')).outcome s
  literal : (Display.literal Deferred.supplier (.argument q)).outcome s =
    (Display.literal Deferred.supplier (.argument q')).outcome s
  required : (Arguments.required Deferred.supplier q).outcome s =
    (Arguments.required Deferred.supplier q').outcome s

/-- A collection is validated as another one is, and warned of as that one is. -/
structure Session.SameVerdict (s : Session) (collection collection' : Value) : Prop where
  outcome : (Validation.validate Deferred.supplier collection).outcome s =
    (Validation.validate Deferred.supplier collection').outcome s
  journal : ((Validation.validate Deferred.supplier collection).after s).journal =
    ((Validation.validate Deferred.supplier collection').after s).journal

theorem Session.Builds.sameType {e : TypeShape} (h : s.Builds s.given? e v)
    (h' : s.Builds some e v') (self : s.EqualsItself e.core) : s.SameType v v' := by
  have serves := Serves.supplier s
  have within := h.interchanges h'
  have few := h'.layers_le
  refine {
    equal := (within.equal self (.refl s) few).elim fun _ => Action.result?_of_ok
    equal' := (within.symm.equal self (.refl s) few).elim fun _ => Action.result?_of_ok
    hash := ((within.hash serves).outcome (.refl s)).1
    label := ((within.label serves).outcome (.refl s)).1
    literal := ((within.literal serves).outcome (.refl s)).1
    unwrap := ((within.unwrap serves).outcome (.refl s)).1
    isInput := ((within.isInput serves).outcome (.refl s)).1
    nullable := ?_ }
  cases e with
  | leaf x =>
    cases h
    cases h'
    exact .inl rfl
  | wrap w e => exact .inr ((within.nullable_equal self few).elim fun _ => Action.result?_of_ok)

/-- Callables that return a type may be given in its place, at every level of a type expression. -/
theorem references_are_interchangeable (s : Session) :
    (∀ {e : TypeShape} {v v' : Value}, s.Builds s.given? e v → s.Builds some e v' →
      s.EqualsItself e.core → s.SameType v v') ∧
    (∀ {e : TypeShape} {q q' : Ref .argument}, s.Declares s.given? e q → s.Declares some e q' →
      (s.argument q).Resembles (s.argument q') → (s.argument q).Whole →
        s.EqualsItself e.core → s.SameArgument q q') ∧
    ∀ {collection collection' : Value} {vs vs' : List Value},
      Container.elements collection s = .ok vs s → Container.elements collection' s = .ok vs' s →
        List.Forall₂ s.Redeclares vs vs' → s.SameVerdict collection collection' := by
  have serves := Session.Serves.supplier s
  refine ⟨fun built built' self => built.sameType built' self, ?_, ?_⟩
  · intro e q q' declared declared' resembles whole self
    have within := declared.interchanges declared' resembles
    obtain ⟨t', -, -, built'⟩ := declared'.type
    have few := built'.layers_le
    have whole' : (s.argument q').Whole :=
      ⟨resembles.name ▸ whole.name, resembles.description ▸ whole.description,
        resembles.hasDefault ▸ whole.hasDefault⟩
    exact {
      equal := (within.equal whole self (.refl s) few).elim fun _ => Action.result?_of_ok
      equal' := (within.symm.equal whole' self (.refl s) few).elim fun _ => Action.result?_of_ok
      hash := ((within.hash serves).outcome (.refl s)).1
      label := ((within.label serves).outcome (.refl s)).1
      literal := ((within.literal serves).outcome (.refl s)).1
      required := ((within.required serves).outcome (.refl s)).1 }
  · intro collection collection' vs vs' listed listed' redeclared
    have alike := redeclared.imp fun _ _ redeclared => redeclared.alike serves
    have checked : s.Accord (Validation.checkDirectives Deferred.supplier [] vs)
        (Validation.checkDirectives Deferred.supplier [] vs') := serves.checkDirectives alike []
    obtain ⟨outcome, journal⟩ := checked.outcome (.refl s)
    have run {c : Value} {us : List Value} (listed : Container.elements c s = .ok us s) :
        Validation.validate Deferred.supplier c s =
          Validation.checkDirectives Deferred.supplier [] us s := by
      rw [Validation.validate, Action.bind_of_ok listed]
    constructor
    · rw [Action.outcome, Action.outcome, run listed, run listed']
      exact outcome
    · rw [Action.after, Action.after, run listed, run listed']
      exact journal

namespace BuiltIn

/-- A callable that returns what is bound to a name. -/
def returning (tag : Nat) (name : String) : Value := .deferred ⟨tag, name, .ref name⟩

def requiredString : TypeShape := .wrap .nonNull (.leaf (.scalar stringRef))

def requiredStrings : TypeShape := .wrap .list requiredString

/-- The built-in session with two lists of required strings, and an argument and a directive for
each: for the first one callables are given at every level, and one of them was called. -/
def deferringSession : Session := { session with
  wrappers := .ofList [truthRequired, truthRequired,
    { source := some (returning 7 "String"), resolved := some (.scalar stringRef), extra := [] },
    { source := some (returning 8 "Required"), resolved := none, extra := [] },
    { source := some (.scalar stringRef), resolved := none, extra := [] },
    { source := some (.wrapper .nonNull ⟨4⟩), resolved := none, extra := [] }]
  arguments := (session.arguments.add
      { condition 0 "" with name := some (.text "names"), source := returning 9 "Strings" }).add
    { condition 0 "" with name := some (.text "names"), source := .wrapper .list ⟨5⟩ }
  directives := (session.directives.add { includeDirective with args := ⟨10, [.argument ⟨2⟩]⟩ }).add
    { includeDirective with args := ⟨11, [.argument ⟨3⟩]⟩ }
  nextTag := 14
  bindings := ("Required", .wrapper .nonNull ⟨2⟩) :: ("Strings", .wrapper .list ⟨3⟩) :: bindings }

theorem deferringSession_builds :
    deferringSession.Builds deferringSession.given? requiredStrings (.wrapper .list ⟨3⟩) := by
  have string : deferringSession.Builds deferringSession.given? requiredString
      (.wrapper .nonNull ⟨2⟩) :=
    .wrap (by decide) rfl rfl (.inr rfl) nofun (.leaf rfl)
  exact .wrap (by decide) rfl rfl (.inl rfl) nofun string

theorem deferringSession_builds_directly :
    deferringSession.Builds some requiredStrings (.wrapper .list ⟨5⟩) := by
  have string : deferringSession.Builds some requiredString (.wrapper .nonNull ⟨4⟩) :=
    .wrap (by decide) rfl rfl (.inl rfl) nofun (.leaf rfl)
  exact .wrap (by decide) rfl rfl (.inl rfl) nofun string

theorem deferred_strings_are_interchangeable :
    deferringSession.SameType (.wrapper .list ⟨3⟩) (.wrapper .list ⟨5⟩) ∧
      deferringSession.SameArgument ⟨2⟩ ⟨3⟩ ∧
      deferringSession.SameVerdict (.tuple 12 [.directive ⟨2⟩]) (.tuple 13 [.directive ⟨3⟩]) := by
  have self : deferringSession.EqualsItself requiredStrings.core :=
    ⟨rfl, fun _ keyed => nomatch keyed⟩
  have declared : deferringSession.Declares deferringSession.given? requiredStrings ⟨2⟩ :=
    ⟨by decide, _, rfl, .inl rfl, deferringSession_builds⟩
  have directly : deferringSession.Declares some requiredStrings ⟨3⟩ :=
    ⟨by decide, _, rfl, .inl rfl, deferringSession_builds_directly⟩
  have resembles : (deferringSession.argument ⟨2⟩).Resembles (deferringSession.argument ⟨3⟩) :=
    ⟨rfl, rfl, rfl, rfl⟩
  have args : List.Forall₂ deferringSession.Retypes [.argument ⟨2⟩] [.argument ⟨3⟩] :=
    .cons (.argument declared directly resembles) .nil
  have redeclared : List.Forall₂ deferringSession.Redeclares [.directive ⟨2⟩] [.directive ⟨3⟩] :=
    .cons (.directive (by decide) (by decide) rfl rfl args) .nil
  refine ⟨?_, ?_, ?_⟩
  · exact (references_are_interchangeable deferringSession).1 deferringSession_builds
      deferringSession_builds_directly self
  · exact (references_are_interchangeable deferringSession).2.1 declared directly resembles
      ⟨rfl, rfl, rfl⟩ self
  · exact (references_are_interchangeable deferringSession).2.2 rfl rfl redeclared

end BuiltIn

end DirectiveSchema

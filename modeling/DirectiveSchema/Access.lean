import DirectiveSchema.Container.Keyed
import DirectiveSchema.Directive

/-!
Attributes, elements and argument maps of data: reading, assigning and deleting. Types and
arguments take new attributes; directives and configuration records take none.
-/
namespace DirectiveSchema.Access

/-- An attribute that was added to an object. -/
def extra (className key : String) (as : Attributes) : Action Value :=
  match as.get? key with
  | some v => pure v
  | none => throw (.noAttribute className key)

/-- Reads an attribute. -/
def get (supply : Supplier) (v : Value) (key : String) : Action Value := do
  let s ← MonadState.get
  match v with
  | .named r =>
    let c := s.namedType r
    match key with
    | "name" => pure (Display.typeName c.name)
    | _ => extra v.className key c.extra
  | .scalar r =>
    let c := s.scalar r
    match key with
    | "name" => pure (Display.typeName c.name)
    | "description" => Arguments.present v.className key c.description
    | _ => extra v.className key c.extra
  | .wrapper w r =>
    match key with
    | "type" => Types.wrapped supply w r
    | _ => extra v.className key (s.wrapper r).extra
  | .argument r =>
    match key with
    | "name" => Arguments.name r
    | "description" => Arguments.description r
    | "has_default_value" => Arguments.hasDefault r
    | "default_value" => Arguments.default r
    | "type" => Arguments.type supply r
    | "required" => return .bool (← Arguments.required supply r)
    | _ => extra v.className key (s.argument r).extra
  | .directive r =>
    let d := s.directive r
    match key with
    | "name" => pure d.name
    | "description" => pure d.description
    | "locations" => pure d.locations.value
    | "args" | "arguments" => pure d.args.value
    | _ => throw (.noAttribute v.className key)
  | .config _ name locations args description =>
    match key with
    | "name" => pure name
    | "locations" => pure locations
    | "args" => pure args
    | "description" => pure description
    | _ => throw (.noAttribute v.className key)
  | .location l =>
    match key with
    | "name" | "value" => pure (.text l.tag)
    | _ => throw (.noAttribute v.className key)
  | _ => throw (.noAttribute v.className key)

/-- The attributes of arguments and wrappers that are computed. -/
def isComputed : Value → String → Bool
  | .argument _, key => key == "type" || key == "default_value" || key == "required"
  | .wrapper _ _, key => key == "type"
  | _, _ => false

def isConfigField (key : String) : Bool :=
  ["name", "locations", "args", "description"].contains key

/-- Assigns an attribute. -/
def set (v : Value) (key : String) (new : Value) : Action Unit :=
  if isComputed v key then throw (.noSetter v.className key)
  else match v with
  | .named r => modify fun s =>
    let c := s.namedType r
    s.putNamedType r (match key with
      | "name" => { c with name := some new }
      | _ => { c with extra := c.extra.put key new })
  | .scalar r => modify fun s =>
    let c := s.scalar r
    s.putScalar r (match key with
      | "name" => { c with name := some new }
      | "description" => { c with description := some new }
      | _ => { c with extra := c.extra.put key new })
  | .wrapper _ r => modify fun s =>
    let c := s.wrapper r
    s.putWrapper r { c with extra := c.extra.put key new }
  | .argument r => modify fun s =>
    let c := s.argument r
    s.putArgument r (match key with
      | "name" => { c with name := some new }
      | "description" => { c with description := some new }
      | "has_default_value" => { c with hasDefault := some new }
      | _ => { c with extra := c.extra.put key new })
  | .directive _ => throw .frozenDirective
  | .config _ _ _ _ _ =>
    throw (if isConfigField key then .frozenRecord false else .noAttribute v.className key)
  | _ => throw (.noAttribute v.className key)

/-- Whether an object has an attribute of its own that can be deleted. -/
def owns (s : Session) (v : Value) (key : String) : Bool :=
  match v with
  | .named r =>
    let c := s.namedType r
    if key = "name" then c.name.isSome else (c.extra.get? key).isSome
  | .scalar r =>
    let c := s.scalar r
    if key = "name" then c.name.isSome
    else if key = "description" then c.description.isSome
    else (c.extra.get? key).isSome
  | .wrapper _ r => ((s.wrapper r).extra.get? key).isSome
  | .argument r =>
    let c := s.argument r
    if key = "name" then c.name.isSome
    else if key = "description" then c.description.isSome
    else if key = "has_default_value" then c.hasDefault.isSome
    else (c.extra.get? key).isSome
  | _ => false

/-- A session without an attribute of an object. -/
def without (s : Session) (v : Value) (key : String) : Session :=
  match v with
  | .named r =>
    let c := s.namedType r
    s.putNamedType r (match key with
      | "name" => { c with name := none }
      | _ => { c with extra := c.extra.erase key })
  | .scalar r =>
    let c := s.scalar r
    s.putScalar r (match key with
      | "name" => { c with name := none }
      | "description" => { c with description := none }
      | _ => { c with extra := c.extra.erase key })
  | .wrapper _ r =>
    let c := s.wrapper r
    s.putWrapper r { c with extra := c.extra.erase key }
  | .argument r =>
    let c := s.argument r
    s.putArgument r (match key with
      | "name" => { c with name := none }
      | "description" => { c with description := none }
      | "has_default_value" => { c with hasDefault := none }
      | _ => { c with extra := c.extra.erase key })
  | _ => s

/-- Deletes an attribute. -/
def delete (v : Value) (key : String) : Action Unit := do
  if isComputed v key then throw (.noDeleter v.className key)
  match v with
  | .directive _ => throw .frozenDirective
  | .config _ _ _ _ _ =>
    throw (if isConfigField key then .frozenRecord true else .noAttribute v.className key)
  | _ =>
    if owns (← MonadState.get) v key then modify fun s => without s v key
    else throw (.noAttribute v.className key)

/-- A position in a sequence of the given length; a negative one counts from the end. -/
def position? (length : Nat) (i : Int) : Option Nat :=
  let j := if i < 0 then i + length else i
  if 0 ≤ j ∧ j < length then some j.toNat else none

def indexOf? : Value → Option Int
  | .int n => some n
  | .bool b => some b.toInt
  | _ => none

/-- The element of a sequence at a position. -/
def elementAt (v : Value) (items : List Value) (key : Value) : Action Value :=
  match indexOf? key with
  | none => throw (.badIndex v.className key.className)
  | some i =>
    match (position? items.length i).bind (items[·]?) with
    | some x => pure x
    | none => throw (.indexOutOfRange v.className)

/-- The element of a datum under a key. -/
def item (supply : Supplier) (v key : Value) : Action Value := do
  match v with
  | .list _ | .bytes _ => elementAt v (← Container.elements v) key
  | .dict r =>
    match ← Container.valueAt? supply ((← MonadState.get).dict r) key with
    | some x => pure x
    | none => throw (.missingKey (← Display.literal supply key))
  | _ =>
    if v.row?.isSome || v.text?.isSome then elementAt v (← Container.elements v) key
    else throw (.notSubscriptable v.className)

/-- Adds an element to a list. -/
def append (v x : Value) : Action Unit :=
  match v with
  | .list r => modify fun s => s.putList r (s.list r ++ [x])
  | _ => throw (.noAttribute v.className "append")

/-- The directive in a datum, on which an operation of directives is called. -/
def asDirective (v : Value) (operation : String) : Action (Ref .directive) :=
  match v with
  | .directive r => pure r
  | _ => throw (.noAttribute v.className operation)

/-- Assigns a datum to its name. -/
def addNamed (supply : Supplier) (entries : List Entry) (a : Value) : Action (List Entry) := do
  Container.assign supply entries (← get supply a "name") a

/-- The arguments of a directive under their names: the last argument of a name counts, at the
place of the first one. -/
def argumentMap (supply : Supplier) (r : Ref .directive) : Action (List Entry) := do
  ((← MonadState.get).directive r).args.items.foldlM (addNamed supply) []

/-- The argument map of a datum. -/
def mapOf (supply : Supplier) (v : Value) : Action (List Entry) := do
  argumentMap supply (← asDirective v "argument_map")

/-- The argument under a name. -/
def mapGet (supply : Supplier) (v key : Value) : Action Value := do
  let entries ← mapOf supply v
  match ← Container.valueAt? supply entries key with
  | some a => pure a
  | none => throw (.missingKey (← Display.literal supply key))

/-- Builds a directive from the attributes of a configuration. -/
def fromConfig (supply : Supplier) (v : Value) : Action (Ref .directive) := do
  let name ← get supply v "name"
  let locations ← get supply v "locations"
  let args ← get supply v "args"
  let description ← get supply v "description"
  Directives.create supply name locations args description

end DirectiveSchema.Access

import DirectiveSchema.Answer
import DirectiveSchema.BuiltIn

/-!
Descriptions: all that can be asked of one datum, of an error, and of the library itself.
-/
namespace DirectiveSchema.Description

/-- The position of the first element that is the datum. -/
def positionOf (v : Value) (items : List Value) : Option Nat := items.findIdx? fun x => x.same v

def hashable (supply : Supplier) (v : Value) : Action Answer :=
  Answer.attempt supply (do
    let _ ← HashKey.of supply v
    return .bool true)

/-- The argument map as pairs of a name and the position of the argument. -/
def mapEntries (supply : Supplier) (r : Ref .directive) : Action Answer := do
  let args := ((← get).directive r).args.items
  let entries ← Access.argumentMap supply r
  return .list (← entries.mapM fun e => do
    let name ← Answer.of supply e.key
    return .list [name, match positionOf e.value args with
      | some i => .int i
      | none => .null])

/-- The tags of the locations where a directive may stand. -/
def applicable (supply : Supplier) (r : Ref .directive) : List Location → Action (List Answer)
  | [] => pure []
  | l :: ls => do
    let applies ← Directives.appliesTo supply r (.text l.tag)
    let rest ← applicable supply r ls
    return if applies then .text l.tag :: rest else rest

def ofDirective (supply : Supplier) (v : Value) (r : Ref .directive) : Action Answer := do
  let self ← Answer.attemptValue supply (pure v)
  let label ← Answer.attemptText supply (Display.label supply v)
  let literal ← Answer.attemptText supply (Display.literal supply v)
  let map ← Answer.attempt supply (mapEntries supply r)
  let config ← Answer.attemptValue supply (Directives.toConfig r)
  let applies ← applicable supply r Location.all
  let specified ← Directives.isSpecified v
  let hashable ← hashable supply v
  return .fields [("self", self), ("str", label), ("repr", literal),
    ("arguments_is_args", .bool true), ("argument_map", map), ("config", config),
    ("applies_to", .list applies), ("specified", .bool specified), ("hashable", hashable)]

def ofArgument (supply : Supplier) (v : Value) : Action Answer := do
  let self ← Answer.attemptValue supply (pure v)
  let label ← Answer.attemptText supply (Display.label supply v)
  let literal ← Answer.attemptText supply (Display.literal supply v)
  let hashable ← hashable supply v
  return .fields [("self", self), ("str", label), ("repr", literal), ("hashable", hashable)]

/-- The label of a type wrapped once more. -/
def wrappedLabel (supply : Supplier) (w : Wrapper) (v : Value) : Action Value := do
  Display.labelValue supply (← Types.wrap w v)

def ofOther (supply : Supplier) (v : Value) : Action Answer := do
  let self ← Answer.attemptValue supply (pure v)
  let label ← Answer.attemptValue supply (Display.labelValue supply v)
  let isInput ← Answer.attempt supply (return .bool (← Types.isInput supply v))
  let innermost ← Answer.attemptValue supply (Types.unwrap supply v)
  let nullable ← Answer.attemptValue supply (Types.nullable supply v)
  let common := [("self", self), ("str", label), ("is_input", isInput), ("unwrap", innermost),
    ("nullable", nullable)]
  if !v.isType then return .fields common
  let asList ← Answer.attemptValue supply (wrappedLabel supply .list v)
  let asNonNull ← Answer.attemptValue supply (wrappedLabel supply .nonNull v)
  let wrapped := common ++ [("as_list", asList), ("as_non_null", asNonNull)]
  if !v.isScalar then return .fields wrapped
  let description ← Answer.attemptValue supply (Access.get supply v "description")
  return .fields (wrapped ++ [("description", description)])

/-- All that can be asked of a datum. -/
def of (supply : Supplier) (v : Value) : Action Answer :=
  match v with
  | .directive r => ofDirective supply v r
  | .argument _ => ofArgument supply v
  | _ => ofOther supply v

/-- The message and the offending name of an error that is built from positional arguments. -/
def errorParts (kind : FaultKind) (args : List Value) : Action (Value × Option Value) :=
  if kind = .invalidName then
    match args with
    | [] => throw (.missingFields "InvalidNameError.__init__" ["message"])
    | [m] => pure (m, some .null)
    | [m, name] => pure (m, some name)
    | _ => throw (.tooManyFields "InvalidNameError.__init__" 2 3 (args.length + 1))
  else
    match args with
    | [] => pure (.text "", none)
    | [m] => pure (m, none)
    | _ => throw (.tooManyFields "GraphQLError.__init__" 1 2 (args.length + 1))

/-- The label of an error is its message, which has to be a text. -/
def errorLabel (message : Value) : Action Value :=
  if message.text?.isSome then pure message else throw (.labelNotText message.className)

/-- All that can be asked of an error. -/
def ofError (supply : Supplier) (kind : FaultKind) (args : List Value) : Action Answer := do
  let (message, name?) ← errorParts kind args
  let label ← Answer.attemptValue supply (errorLabel message)
  let shown ← Answer.of supply message
  let kinds := FaultKind.reported.filter fun k => kind.isA k
  let common := [("str", label), ("message", shown), ("kinds", .kinds kinds)]
  match name? with
  | none => return .fields common
  | some name => return .fields (common ++ [("name", ← Answer.of supply name)])

/-- The names that the library exports, in order of their characters. -/
def exported : List String :=
  ["Directive", "DirectiveConfig", "DirectiveLocation", "IncludeDirective",
    "SPECIFIED_DIRECTIVES", "SkipDirective", "__version__"]

def version : String := "0.1.0"

/-- A location by name, value and label. -/
def locationEntry (l : Location) : Answer := .list [.text l.tag, .text l.tag, .text l.tag]

/-- The name and the description of a scalar. -/
def scalarEntry (c : ScalarType) : List Value := [c.name.getD .null, c.description.getD .null]

/-- All that can be asked of the library. -/
def ofLibrary (supply : Supplier) : Action Answer := do
  let scalars ← BuiltIn.scalars.mapM fun c => do
    return Answer.list (← (scalarEntry c).mapM (Answer.of supply))
  let directives ← [BuiltIn.includeRef, BuiltIn.skipRef].mapM fun r =>
    Answer.of supply (.directive r)
  return .fields [("version", .text version),
    ("all", .list (exported.map .text)),
    ("locations", .list (Location.all.map locationEntry)),
    ("tags", .list (Location.sortedTags.map .text)),
    ("name_re", .text Name.pattern),
    ("int_bounds", .list [.int (-2147483648), .int 2147483647]),
    ("scalars", .list scalars),
    ("directives", .list directives)]

end DirectiveSchema.Description

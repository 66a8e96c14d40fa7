import DirectiveSchema.Display

/-!
The scalars and directives that every schema has, and the session in which they are bound to their
names and nothing else has happened.
-/
namespace DirectiveSchema.BuiltIn

def integerScalar : ScalarType := {
  name := some (.text "Int")
  description := some (.text <|
    "The `Int` scalar type represents non-fractional signed whole numeric values. Int can " ++
    "represent values between -(2^31) and 2^31 - 1.")
  serialize := .integer
  parse := .integer
  extra := [] }

def floatScalar : ScalarType := {
  name := some (.text "Float")
  description := some (.text <|
    "The `Float` scalar type represents signed double-precision fractional values as specified " ++
    "by [IEEE 754](http://en.wikipedia.org/wiki/IEEE_floating_point).")
  serialize := .float
  parse := .float
  extra := [] }

def booleanScalar : ScalarType := {
  name := some (.text "Boolean")
  description := some (.text "The `Boolean` scalar type represents `true` or `false`.")
  serialize := .truth
  parse := .truth
  extra := [] }

def stringScalar : ScalarType := {
  name := some (.text "String")
  description := some (.text <|
    "The `String` scalar type represents textual data, represented as UTF-8 character " ++
    "sequences. The String type is most often used by GraphQL to represent free-form " ++
    "human-readable text.")
  serialize := .stringOut
  parse := .stringIn
  extra := [] }

def identifierScalar : ScalarType := {
  name := some (.text "ID")
  description := some (.text <|
    "The `ID` scalar type represents a unique identifier, often used to refetch an object or " ++
    "as key for a cache. The ID type appears in a JSON response as a String; however, it is " ++
    "not intended to be human-readable. When expected as an input type, any string (such as " ++
    "`\"4\"`) or integer (such as `4`) input value will be accepted as an ID.")
  serialize := .identifier
  parse := .identifier
  extra := [] }

/-- The scalars that every schema has. They are the first cells of the arena of scalars. -/
def scalars : List ScalarType :=
  [integerScalar, floatScalar, booleanScalar, stringScalar, identifierScalar]

def scalarNames : List String := ["Int", "Float", "Boolean", "String", "ID"]

def integerRef : Ref .scalar := ⟨0⟩

def floatRef : Ref .scalar := ⟨1⟩

def booleanRef : Ref .scalar := ⟨2⟩

def stringRef : Ref .scalar := ⟨3⟩

def identifierRef : Ref .scalar := ⟨4⟩

def scalarRefs : List (Ref .scalar) :=
  [integerRef, floatRef, booleanRef, stringRef, identifierRef]

def isScalar (r : Ref .scalar) : Bool := scalarRefs.contains r

/-- The built-in scalar of a name. -/
def scalarNamed? (name : Value) : Option (Ref .scalar) :=
  match name.text? with
  | some s => (scalarNames.zip scalarRefs).lookup s
  | none => none

/-- The built-in scalar of a name, or a fault that shows what was given. -/
def specifiedScalar (supply : Supplier) (name : Value) : Action Value :=
  match scalarNamed? name with
  | some r => pure (.scalar r)
  | none => do throw (.unknownScalar (← Display.filled supply name))

/-- The condition of a directive: a required truth value. -/
def condition (wrapper : Nat) (description : String) : Argument := {
  name := some (.text "if")
  description := some (.text description)
  hasDefault := some (.bool false)
  default := none
  source := .wrapper .nonNull ⟨wrapper⟩
  resolved := none
  extra := [] }

def truthRequired : WrappingType := {
  source := some (.scalar booleanRef)
  resolved := none
  extra := [] }

def executableLocations : List Value :=
  [.location .field, .location .fragmentSpread, .location .inlineFragment]

def includeDirective : Directive := {
  name := .text "include"
  named := by decide
  description := .text <|
    "Directs the executor to include this field or fragment only when the `if` argument is true."
  locations := ⟨1, executableLocations⟩
  args := ⟨2, [.argument ⟨0⟩]⟩ }

def skipDirective : Directive := {
  name := .text "skip"
  named := by decide
  description := .text
    "Directs the executor to skip this field or fragment when the `if` argument is true."
  locations := ⟨3, executableLocations⟩
  args := ⟨4, [.argument ⟨1⟩]⟩ }

def includeRef : Ref .directive := ⟨0⟩

def skipRef : Ref .directive := ⟨1⟩

def bindings : List (String × Value) :=
  scalarNames.zip (scalarRefs.map .scalar) ++
    [("IncludeDirective", .directive includeRef),
      ("SkipDirective", .directive skipRef),
      ("SPECIFIED_DIRECTIVES", .tuple 5 [.directive includeRef, .directive skipRef]),
      ("SPECIFIED_SCALAR_TYPES", .tuple 6 (scalarRefs.map .scalar))]

/-- The session before the first request. -/
def session : Session := {
  lists := .ofList []
  sets := .ofList []
  dicts := .ofList []
  namedTypes := .ofList []
  scalars := .ofList scalars
  wrappers := .ofList [truthRequired, truthRequired]
  arguments := .ofList [condition 0 "Included when true.", condition 1 "Skipped when true."]
  directives := .ofList [includeDirective, skipDirective]
  nextTag := 7
  bindings
  calls := []
  journal := [] }

theorem scalar_name {r : Ref .scalar} {s : String} (h : scalarNamed? (.text s) = some r) :
    (session.scalar r).name = some (.text s) := by
  have : s = "Int" ∧ r = ⟨0⟩ ∨ s = "Float" ∧ r = ⟨1⟩ ∨ s = "Boolean" ∧ r = ⟨2⟩ ∨
      s = "String" ∧ r = ⟨3⟩ ∨ s = "ID" ∧ r = ⟨4⟩ := by
    simp only [scalarNamed?, Value.text?, scalarNames, scalarRefs, integerRef, floatRef,
      booleanRef, stringRef, identifierRef, List.zip_cons_cons, List.zip_nil_right,
      List.lookup_cons] at h
    split at h
    · simp_all
    split at h
    · simp_all
    split at h
    · simp_all
    split at h
    · simp_all
    split at h
    · simp_all
    · simp at h
  rcases this with ⟨rfl, rfl⟩ | ⟨rfl, rfl⟩ | ⟨rfl, rfl⟩ | ⟨rfl, rfl⟩ | ⟨rfl, rfl⟩ <;> rfl

end DirectiveSchema.BuiltIn

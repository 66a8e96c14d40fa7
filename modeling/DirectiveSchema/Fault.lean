import DirectiveSchema.Text.Quoted
import DirectiveSchema.Value

/-!
Faults by cause. Each fault has a kind, a message and sometimes a cause of its own; texts that were
shown at the time of the fault are kept in it.
-/
namespace DirectiveSchema

inductive Fault where
  /-- Raised on purpose by an expression or a coercion. -/
  | raised (kind : FaultKind) (message : String)
  /-- Nesting without an end. -/
  | endless
  /-- A comparison without an end. -/
  | endlessComparison
  | unbound (name : String)
  | missingFields (function : String) (fields : List String)
  | unexpectedField (function field : String)
  | repeatedField (function field : String)
  | tooManyFields (function : String) (least most given : Nat)
  | notIterable (className : String)
  /-- Texts are joined, and this is no collection of any. -/
  | notJoinable
  | joinedNotText (position : Nat) (className : String)
  /-- A pattern of characters is matched with something else. -/
  | notMatchable (className : String)
  | unhashable (className : String)
  | notSubscriptable (className : String)
  | indexOutOfRange (className : String)
  | badIndex (className : String) (key : String)
  | missingKey (shown : String)
  | noAttribute (className key : String)
  | noSetter (className property : String)
  | noDeleter (className property : String)
  | frozenRecord (deleting : Bool)
  | frozenDirective
  | frozenMapping (deleting : Bool)
  | noDefault
  /-- A label that is not a text. -/
  | labelNotText (className : String)
  | tooFewForFormat
  | tooManyForFormat
  | integerTooLong
  | infinityToInteger
  | nanToInteger
  | integerToFloat
  | notFloatable (className : String)
  | uncopyable
  | doubleNonNull
  | missingName
  | invalidName (shown : String) (name : Value)
  | missingLocations
  | unknownLocation (shown : String)
  | unknownScalar (shown : String)
  | notInteger (shown : String)
  | integerOutOfRange (shown : String)
  | notNumeric (shown : String)
  | listAsText (shown : String)
  | notIdentifier (shown : String)
  | serialization (cause : Fault)
  | parsing (cause : Fault)
  | notDirective (shown : String)
  | duplicateDirective (name : String)
  | notArgument (directive shown : String)
  | invalidArgumentName (cause : Fault)
  | duplicateArgument (name directive : String)
  | notInputType (name directive shown : String)

instance : Inhabited Fault := ⟨.endless⟩

namespace Fault

def kind : Fault → FaultKind
  | raised k _ => k
  | endless | endlessComparison => .recursion
  | unbound _ => .unbound
  | missingFields _ _ | unexpectedField _ _ | repeatedField _ _ | notJoinable
  | joinedNotText _ _ | notMatchable _ | tooManyFields _ _ _ _ | notIterable _ | unhashable _
  | notSubscriptable _
  | badIndex _ _ | frozenMapping _ | labelNotText _ | tooFewForFormat | tooManyForFormat
  | notFloatable _ | uncopyable => .type
  | indexOutOfRange _ => .index
  | missingKey _ => .key
  | noAttribute _ _ | noSetter _ _ | noDeleter _ _ | frozenRecord _ | frozenDirective
  | noDefault => .access
  | integerTooLong | nanToInteger | doubleNonNull | unknownLocation _ | unknownScalar _
  | notInteger _ | integerOutOfRange _ | notNumeric _ | listAsText _ | notIdentifier _ => .value
  | infinityToInteger | integerToFloat => .overflow
  | missingName => .missingName
  | invalidName _ _ => .invalidName
  | missingLocations => .missingLocations
  | serialization _ => .serialization
  | parsing _ => .parsing
  | notDirective _ | duplicateDirective _ | notArgument _ _ | invalidArgumentName _
  | duplicateArgument _ _ | notInputType _ _ _ => .schema

/-- Names in quotes, the last one after "and". -/
def listFields : List String → String
  | [] => ""
  | [a] => "'" ++ a ++ "'"
  | [a, b] => "'" ++ a ++ "' and '" ++ b ++ "'"
  | a :: rest => "'" ++ a ++ "', " ++ listFields rest

/-- The noun by which a sequence is called in a message on its indices. -/
def indexNoun (className : String) : String :=
  if className = "bytes" then "byte"
  else if className = "str" ∨ className = "DirectiveLocation" then "string"
  else if className = "DirectiveConfig" then "tuple"
  else className

def message : Fault → String
  | raised .key m => Text.quoted m
  | raised _ m => m
  | endless => "maximum recursion depth exceeded"
  | endlessComparison => "maximum recursion depth exceeded in comparison"
  | unbound name => "name '" ++ name ++ "' is not defined"
  | missingFields function fields =>
    function ++ "() missing " ++ toString fields.length ++ " required positional argument" ++
      (if fields.length = 1 then "" else "s") ++ ": " ++ listFields fields
  | unexpectedField function field =>
    function ++ "() got an unexpected keyword argument '" ++ field ++ "'"
  | repeatedField function field =>
    function ++ "() got multiple values for argument '" ++ field ++ "'"
  | tooManyFields function least most given =>
    function ++ "() takes from " ++ toString least ++ " to " ++ toString most ++
      " positional arguments but " ++ toString given ++ " were given"
  | notIterable c => "'" ++ c ++ "' object is not iterable"
  | notJoinable => "can only join an iterable"
  | joinedNotText i c =>
    "sequence item " ++ toString i ++ ": expected str instance, " ++ c ++ " found"
  | notMatchable c =>
    if c = "bytes" then "cannot use a string pattern on a bytes-like object"
    else "expected string or bytes-like object, got '" ++ c ++ "'"
  | unhashable c => "unhashable type: '" ++ c ++ "'"
  | notSubscriptable c => "'" ++ c ++ "' object is not subscriptable"
  | indexOutOfRange c =>
    if c = "bytes" then "index out of range" else indexNoun c ++ " index out of range"
  | badIndex c key =>
    if indexNoun c = "string" then "string indices must be integers, not '" ++ key ++ "'"
    else indexNoun c ++ " indices must be integers or slices, not " ++ key
  | missingKey shown => shown
  | noAttribute c a => "'" ++ c ++ "' object has no attribute '" ++ a ++ "'"
  | noSetter c p => "property '" ++ p ++ "' of '" ++ c ++ "' object has no setter"
  | noDeleter c p => "property '" ++ p ++ "' of '" ++ c ++ "' object has no deleter"
  | frozenRecord deleting => if deleting then "can't delete attribute" else "can't set attribute"
  | frozenDirective => "Directive definitions are immutable"
  | frozenMapping deleting =>
    "'mappingproxy' object does not support item " ++
      (if deleting then "deletion" else "assignment")
  | noDefault => "No default value"
  | labelNotText c => "__str__ returned non-string (type " ++ c ++ ")"
  | tooFewForFormat => "not enough arguments for format string"
  | tooManyForFormat => "not all arguments converted during string formatting"
  | integerTooLong =>
    "Exceeds the limit (4300 digits) for integer string conversion; " ++
      "use sys.set_int_max_str_digits() to increase the limit"
  | infinityToInteger => "cannot convert float infinity to integer"
  | nanToInteger => "cannot convert float NaN to integer"
  | integerToFloat => "int too large to convert to float"
  | notFloatable c => "float() argument must be a string or a real number, not '" ++ c ++ "'"
  | uncopyable => "cannot copy a lazy reference"
  | doubleNonNull => "Cannot wrap NonNullType twice"
  | missingName => "Directive must be named."
  | invalidName shown _ => "Invalid name \"" ++ shown ++ "\", must match /" ++ Name.pattern ++ "/"
  | missingLocations => "Must provide locations for directive."
  | unknownLocation shown =>
    "Unknown directive location " ++ shown ++ ", expected one of " ++
      ", ".intercalate Location.sortedTags
  | unknownScalar shown => "Unknown scalar type " ++ shown
  | notInteger shown => "Int cannot represent non integer value: " ++ shown
  | integerOutOfRange shown => "Int cannot represent non 32-bit signed integer: " ++ shown
  | notNumeric shown => "Float cannot represent non numeric value: " ++ shown
  | listAsText shown => "String cannot represent list value \"" ++ shown ++ "\""
  | notIdentifier shown => "ID cannot represent value: " ++ shown
  | serialization cause => cause.message
  | parsing cause => cause.message
  | notDirective shown => "Expected Directive but got " ++ shown
  | duplicateDirective name => "Duplicate directive \"@" ++ name ++ "\""
  | notArgument directive shown =>
    "Expected Argument in directive \"@" ++ directive ++ "\" but got \"" ++ shown ++ "\""
  | invalidArgumentName cause => cause.message
  | duplicateArgument name directive =>
    "Duplicate argument \"" ++ name ++ "\" on directive \"@" ++ directive ++ "\""
  | notInputType name directive shown =>
    "Expected input type for argument \"" ++ name ++ "\" on directive \"@" ++ directive ++
      "\" but got \"" ++ shown ++ "\""

/-- The fault that a fault was made from. -/
def cause? : Fault → Option Fault
  | serialization c | parsing c | invalidArgumentName c => some c
  | _ => none

/-- The offending name of an invalid name, null if none was given. -/
def offendingName? : Fault → Option Value
  | invalidName _ name => some name
  | raised .invalidName _ => some .null
  | _ => none

/-- Faults that a scalar type turns into its own: a rejected value or type of value. -/
def isRejection (f : Fault) : Bool := f.kind.isA .value || f.kind.isA .type

end Fault

end DirectiveSchema

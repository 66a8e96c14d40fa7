import DirectiveSchema.Expression
import DirectiveSchema.Name

/-!
The data that definitions are made of. Plain data stand for themselves; tuples, configuration
records and foreign objects carry a tag, which is their identity; lists, sets, dictionaries, types,
arguments and directives live in the store and are given by reference, so that they may hold
themselves.
-/
namespace DirectiveSchema

/-- The kinds of cell in the store. -/
inductive CellKind where
  | list
  | set
  | dict
  | named
  | scalar
  | wrapper
  | argument
  | directive
deriving DecidableEq, Inhabited, Repr

/-- A reference to a cell of one kind. -/
structure Ref (k : CellKind) where
  index : Nat
deriving DecidableEq, Inhabited, Repr

/-- A type that is declared later: each call counts under its counter and evaluates the body. -/
structure Deferred where
  tag : Nat
  counter : String
  body : TypeExpression

instance : Inhabited Deferred := ⟨⟨0, "", default⟩⟩

inductive Value where
  | null
  /-- Stands in place of a name that was never given. -/
  | unnamed
  | bool (b : Bool)
  | int (n : Int)
  | float (x : Binary64)
  | text (s : String)
  | bytes (bs : List UInt8)
  | location (l : Location)
  | foreign (tag : Nat) (text : String)
  | tuple (tag : Nat) (items : List Value)
  | config (tag : Nat) (name locations args description : Value)
  | list (r : Ref .list)
  | set (r : Ref .set)
  | dict (r : Ref .dict)
  | named (r : Ref .named)
  | scalar (r : Ref .scalar)
  | wrapper (w : Wrapper) (r : Ref .wrapper)
  | argument (r : Ref .argument)
  | directive (r : Ref .directive)
  | deferred (d : Deferred)

instance : Inhabited Value := ⟨.null⟩

/-- The functions of a scalar type. -/
inductive Coercion where
  | identity
  | label
  | integer
  | float
  | truth
  | stringOut
  | stringIn
  | identifier
  | constant (v : Value)
  | raising (kind : FaultKind) (message : String)

instance : Inhabited Coercion := ⟨.identity⟩

/-- Attributes that were added to an object, in the order of their first assignment. -/
abbrev Attributes := List (String × Value)

/-- An immutable sequence with its identity. -/
structure Row where
  tag : Nat
  items : List Value
deriving Inhabited

namespace Row

def value (r : Row) : Value := .tuple r.tag r.items

end Row

/-- A named type that is not a scalar. Its name is unset until one is assigned. -/
structure NamedType where
  name : Option Value
  extra : Attributes
deriving Inhabited

structure ScalarType where
  name : Option Value
  description : Option Value
  serialize : Coercion
  parse : Coercion
  extra : Attributes
deriving Inhabited

/-- A wrapping type: what it was built over, and the type once that is known. A copy that is still
being made has no source yet. -/
structure WrappingType where
  source : Option Value
  resolved : Option Value
  extra : Attributes
deriving Inhabited

/-- An argument definition. Its public attributes may be deleted; the stored default is apart from
the attribute that tells whether there is one. -/
structure Argument where
  name : Option Value
  description : Option Value
  hasDefault : Option Value
  default : Option Value
  source : Value
  resolved : Option Value
  extra : Attributes
deriving Inhabited


/-- A named type before its attributes are filled in. -/
def NamedType.blank : NamedType := { name := none, extra := [] }

/-- A wrapping type before its attributes are filled in. -/
def WrappingType.blank : WrappingType := { source := none, resolved := none, extra := [] }

/-- An argument before its attributes are filled in. -/
def Argument.blank : Argument := {
  name := none
  description := none
  hasDefault := none
  default := none
  source := .null
  resolved := none
  extra := [] }

namespace Attributes

def get? (as : Attributes) (key : String) : Option Value := as.lookup key

/-- Assigns an attribute, in its old place if it has one. -/
def put : Attributes → String → Value → Attributes
  | [], key, v => [(key, v)]
  | (k, u) :: as, key, v => if k = key then (k, v) :: as else (k, u) :: put as key v

def erase (as : Attributes) (key : String) : Attributes := as.filter fun p => p.1 != key

theorem get?_put_self (as : Attributes) (key : String) (v : Value) :
    (as.put key v).get? key = some v := by
  induction as with
  | nil => simp [put, get?]
  | cons p as ih =>
    obtain ⟨k, u⟩ := p
    by_cases h : k = key
    · simp [put, get?, h]
    · have hb : (key == k) = false := beq_eq_false_iff_ne.2 (Ne.symm h)
      simpa [put, get?, List.lookup_cons, h, hb] using ih

end Attributes

namespace Wrapper

def className : Wrapper → String
  | list => "ListType"
  | nonNull => "NonNullType"
  | plain => "WrappingType"

end Wrapper

namespace Value

mutual

/-- Identity of two data. A tag belongs to one object; what lies under it is compared as well, so
that identical data are equal. -/
def same : Value → Value → Bool
  | .null, .null => true
  | .unnamed, .unnamed => true
  | .bool a, .bool b => a == b
  | .int a, .int b => a == b
  | .float a, .float b => a.same b
  | .text a, .text b => a == b
  | .bytes a, .bytes b => a == b
  | .location a, .location b => a == b
  | .foreign a s, .foreign b t => a == b && s == t
  | .tuple a xs, .tuple b ys => a == b && sameAll xs ys
  | .config a name locations args description, .config b name' locations' args' description' =>
    a == b && name.same name' && locations.same locations' && args.same args' &&
      description.same description'
  | .list a, .list b => a == b
  | .set a, .set b => a == b
  | .dict a, .dict b => a == b
  | .named a, .named b => a == b
  | .scalar a, .scalar b => a == b
  | .wrapper w a, .wrapper w' b => w == w' && a == b
  | .argument a, .argument b => a == b
  | .directive a, .directive b => a == b
  | .deferred a, .deferred b => a.tag == b.tag
  | _, _ => false

def sameAll : List Value → List Value → Bool
  | [], [] => true
  | x :: xs, y :: ys => x.same y && sameAll xs ys
  | _, _ => false

end

/-- The class of a datum, as it is named in answers and messages. -/
def className : Value → String
  | .null => "NoneType"
  | .unnamed => "NotImplementedType"
  | .bool _ => "bool"
  | .int _ => "int"
  | .float _ => "float"
  | .text _ => "str"
  | .bytes _ => "bytes"
  | .location _ => "DirectiveLocation"
  | .foreign _ _ => "Opaque"
  | .tuple _ _ => "tuple"
  | .config _ _ _ _ _ => "DirectiveConfig"
  | .list _ => "list"
  | .set _ => "set"
  | .dict _ => "dict"
  | .named _ => "NamedType"
  | .scalar _ => "ScalarType"
  | .wrapper w _ => w.className
  | .argument _ => "Argument"
  | .directive _ => "Directive"
  | .deferred _ => "Lazy"

/-- The characters of a text; a location is the text of its tag. -/
def text? : Value → Option String
  | .text s => some s
  | .location l => some l.tag
  | _ => none

/-- The elements of a tuple; a configuration record is a tuple of its four fields. -/
def row? : Value → Option (List Value)
  | .tuple _ items => some items
  | .config _ name locations args description => some [name, locations, args, description]
  | _ => none

def isNull : Value → Bool
  | .null => true
  | _ => false

def isDirective : Value → Bool
  | .directive _ => true
  | _ => false

def isArgument : Value → Bool
  | .argument _ => true
  | _ => false

def isScalar : Value → Bool
  | .scalar _ => true
  | _ => false

def isNonNull : Value → Bool
  | .wrapper .nonNull _ => true
  | _ => false

/-- Whether a datum holds others as its elements. -/
def isContainer : Value → Bool
  | .tuple _ _ | .config _ _ _ _ _ | .list _ | .set _ | .dict _ => true
  | _ => false

def isWrapper : Value → Bool
  | .wrapper _ _ => true
  | _ => false

/-- Whether a datum is a type of the type system. -/
def isType : Value → Bool
  | .named _ | .scalar _ | .wrapper _ _ => true
  | _ => false

/-- Whether a datum is one of the known locations, given as such or by its tag. -/
def isLocation (v : Value) : Bool :=
  match v.text? with
  | some s => (Location.ofTag? s).isSome
  | none => false

/-- Whether a datum is a valid name. -/
def isName (v : Value) : Bool :=
  match v.text? with
  | some s => Name.isValid s
  | none => false

mutual

theorem same_refl : ∀ v : Value, v.same v = true
  | .tuple _ items => by simp [same, sameAll_refl items]
  | .config _ name locations args description => by
    simp [same, same_refl name, same_refl locations, same_refl args, same_refl description]
  | .null | .unnamed | .bool _ | .int _ | .float _ | .text _ | .bytes _ | .location _
  | .foreign _ _ | .list _ | .set _ | .dict _ | .named _ | .scalar _ | .wrapper _ _ | .argument _
  | .directive _ | .deferred _ => by simp [same, Binary64.same]

theorem sameAll_refl : ∀ vs : List Value, sameAll vs vs = true
  | [] => by simp [sameAll]
  | v :: vs => by simp [sameAll, same_refl v, sameAll_refl vs]

end

mutual

/-- How deep tuples and configuration records lie in each other. -/
def depth : Value → Nat
  | .tuple _ items => depths items + 1
  | .config _ name locations args description =>
    max (max name.depth locations.depth) (max args.depth description.depth) + 1
  | _ => 0

/-- The greatest depth of some data. -/
def depths : List Value → Nat
  | [] => 0
  | v :: vs => max v.depth (depths vs)

end

theorem depth_le_depths {v : Value} {vs : List Value} (h : v ∈ vs) : v.depth ≤ depths vs := by
  induction vs with
  | nil => cases h
  | cons u vs ih =>
    simp only [depths]
    rcases List.mem_cons.1 h with rfl | h
    · exact Nat.le_max_left _ _
    · exact Nat.le_trans (ih h) (Nat.le_max_right _ _)

end Value

/-- A directive definition. It has a valid name. -/
structure Directive where
  name : Value
  named : name.isName = true
  description : Value
  locations : Row
  args : Row

instance : Inhabited Directive :=
  ⟨{ name := .text "_", named := by decide, description := .null, locations := ⟨0, []⟩
     args := ⟨0, []⟩ }⟩

/-! The data that cells hold. -/

def Attributes.contents (as : Attributes) : List Value := as.map Prod.snd

def NamedType.contents (c : NamedType) : List Value := c.name.toList ++ c.extra.contents

def ScalarType.contents (c : ScalarType) : List Value :=
  c.name.toList ++ c.description.toList ++ c.extra.contents

def WrappingType.contents (c : WrappingType) : List Value :=
  c.source.toList ++ c.resolved.toList ++ c.extra.contents

def Argument.contents (c : Argument) : List Value :=
  c.name.toList ++ c.description.toList ++ c.hasDefault.toList ++ c.default.toList ++
    c.source :: c.resolved.toList ++ c.extra.contents

def Directive.contents (c : Directive) : List Value :=
  [c.name, c.description, c.locations.value, c.args.value]

end DirectiveSchema

import DirectiveSchema.Fault.Kind
import DirectiveSchema.Location
import DirectiveSchema.Number.Binary64

/-!
Declaration expressions. A request names the data it works on by expressions, which are evaluated
in a session; a type expression may be deferred, and is then evaluated each time it is called.
-/
namespace DirectiveSchema

/-- The three wrapping types; a plain wrapper has no notation of its own. -/
inductive Wrapper where
  | list
  | nonNull
  | plain
deriving DecidableEq, Inhabited, Repr

/-- The two ways to build a directive: at once, or from a configuration record. -/
inductive Route where
  | constructor
  | config
deriving DecidableEq, Inhabited, Repr

mutual

inductive Expression where
  | null
  | bool (b : Bool)
  | int (n : Int)
  | float (x : Binary64)
  | text (s : String)
  | bytes (bs : List UInt8)
  | location (l : Location)
  | foreign (text : String)
  | list (items : List Expression)
  | tuple (items : List Expression)
  | set (items : List Expression)
  | dict (entries : List (Expression × Expression))
  | ref (name : String)
  | type (t : TypeExpression)
  | argument (name : Option Expression) (type : Option TypeExpression)
      (default description : Option Expression)
  | directive (route : Route) (name locations args description : Option Expression)

inductive TypeExpression where
  | ref (name : String)
  | wrap (w : Wrapper) (t : TypeExpression)
  | named (name : Option String)
  | scalar (name : Option Expression) (serialize parse : CoercionExpression)
      (description : Option Expression)
  | value (v : Expression)
  | deferred (counter : String) (t : TypeExpression)
  | raising (kind : FaultKind) (message : String)

/-- The functions that a scalar type may be declared with. -/
inductive CoercionExpression where
  | identity
  | label
  | integer
  | float
  | constant (v : Expression)
  | raising (kind : FaultKind) (message : String)

end

instance : Inhabited Expression := ⟨.null⟩

instance : Inhabited TypeExpression := ⟨.named none⟩

mutual

/-- A bound on the number of objects that one evaluation creates. -/
def Expression.weight : Expression → Nat
  | .null | .bool _ | .int _ | .float _ | .text _ | .bytes _ | .location _ | .foreign _
  | .ref _ => 1
  | .list items | .tuple items | .set items => 1 + weights items
  | .dict entries => 1 + entryWeights entries
  | .type t => 1 + t.weight
  | .argument name type default description =>
    1 + fieldWeight name + typeFieldWeight type + fieldWeight default + fieldWeight description
  | .directive _ name locations args description =>
    4 + fieldWeight name + fieldWeight locations + fieldWeight args + fieldWeight description

def TypeExpression.weight : TypeExpression → Nat
  | .ref _ | .named _ | .raising _ _ => 1
  | .wrap _ t => 1 + t.weight
  | .scalar name serialize parse description =>
    1 + fieldWeight name + serialize.weight + parse.weight + fieldWeight description
  | .value v => 1 + v.weight
  | .deferred _ t => 1 + t.weight

def CoercionExpression.weight : CoercionExpression → Nat
  | .constant v => 1 + v.weight
  | _ => 1

def weights : List Expression → Nat
  | [] => 0
  | e :: es => e.weight + weights es

def entryWeights : List (Expression × Expression) → Nat
  | [] => 0
  | (k, v) :: es => k.weight + v.weight + entryWeights es

def fieldWeight : Option Expression → Nat
  | none => 0
  | some e => e.weight

def typeFieldWeight : Option TypeExpression → Nat
  | none => 0
  | some t => t.weight

end

theorem TypeExpression.weight_pos (t : TypeExpression) : 0 < t.weight := by
  cases t <;> simp only [TypeExpression.weight] <;> omega

mutual

/-- Whether an expression stands for a datum that is there: an atom, or what is bound to a name. -/
def Expression.isStanding : Expression → Bool
  | .null | .bool _ | .int _ | .text _ | .bytes _ | .location _ | .ref _ => true
  | .float (.nan _) => false
  | .float _ => true
  | .type t => t.isStanding
  | _ => false

def TypeExpression.isStanding : TypeExpression → Bool
  | .ref _ => true
  | .value v => v.isStanding
  | _ => false

end

end DirectiveSchema

import DirectiveSchema.Argument

/-!
Equality of data. Numbers are equal by value, a location equals its tag, rows and lists are equal
element by element, and an identical element counts as equal. Wrappers are equal when they are of
one kind over equal types; named types are equal by identity; arguments and directives are equal
when their fields are, compared left to right up to the first difference.
-/
namespace DirectiveSchema.Equality

/-- Numeric equality across truth values, integers and floating-point numbers. -/
def numbersEqual? : Value → Value → Option Bool
  | .float x, .float y => some (x.numericEq y)
  | .float x, .int n | .int n, .float x => some (x.equalsInt n)
  | .float x, .bool b | .bool b, .float x => some (x.equalsInt b.toInt)
  | .int m, .int n => some (m == n)
  | .int m, .bool b | .bool b, .int m => some (m == b.toInt)
  | .bool a, .bool b => some (a == b)
  | _, _ => none

/-- Equality of data without parts. -/
def atomsEqual (a b : Value) : Bool :=
  match numbersEqual? a b with
  | some r => r
  | none =>
    match a.text?, b.text? with
    | some s, some t => s == t
    | none, none => a.same b
    | _, _ => false

section

variable (eq : Value → Value → Action Bool)

/-- Elements of containers: the same datum is equal to itself. -/
def element (x y : Value) : Action Bool := if x.same y then pure true else eq x y

/-- Rows are compared element by element before their lengths are. -/
def rows : List Value → List Value → Action Bool
  | [], [] => pure true
  | x :: xs, y :: ys => do if ← element eq x y then rows xs ys else pure false
  | _, _ => pure false

/-- Some element of a list equals the given one. -/
def contains (xs : List Value) (v : Value) : Action Bool :=
  match xs with
  | [] => pure false
  | x :: rest => do if ← element eq x v then pure true else contains rest v

/-- Whether what is kept under one hash key is what is sought under another. -/
def hit (keptHash : HashKey) (kept : Value) (hash : HashKey) (sought : Value) : Action Bool :=
  if keptHash = hash then element eq kept sought else pure false

/-- Some element of a set is the one sought. -/
def holds (m : Member) : List Member → Action Bool
  | [] => pure false
  | u :: rest => do if ← hit eq u.hash u.value m.hash m.value then pure true else holds m rest

/-- The value under a key. -/
def lookup? (hash : HashKey) (key : Value) : List Entry → Action (Option Value)
  | [] => pure none
  | e :: rest => do
    if ← hit eq e.hash e.key hash key then pure (some e.value) else lookup? hash key rest

/-- Every entry has an equal entry on the other side. -/
def entries (other : List Entry) : List Entry → Action Bool
  | [] => pure true
  | e :: rest => do
    match ← lookup? eq e.hash e.key other with
    | none => pure false
    | some u => if ← element eq u e.value then entries other rest else pure false

/-- Every element is found on the other side. -/
def subset (other : List Member) : List Member → Action Bool
  | [] => pure true
  | m :: rest => do if ← holds eq m other then subset other rest else pure false

/-- Defaults are equal when both are unset, or both are set to equal data. -/
def defaults : Option Value → Option Value → Action Bool
  | none, none => pure true
  | some x, some y => element eq x y
  | _, _ => pure false

end

/-- The fields by which two arguments are compared. -/
structure ArgumentKey where
  name : Value
  type : Value
  description : Value
  hasDefault : Value
  default : Option Value

def argumentKey (supply : Supplier) (r : Ref .argument) : Action ArgumentKey := do
  let name ← Arguments.name r
  let type ← Arguments.type supply r
  let description ← Arguments.description r
  let hasDefault ← Arguments.hasDefault r
  return { name, type, description, hasDefault, default := ((← get).argument r).default }

def argumentKeys (eq : Value → Value → Action Bool) (a b : ArgumentKey) : Action Bool := do
  unless ← element eq a.name b.name do return false
  unless ← element eq a.type b.type do return false
  unless ← element eq a.description b.description do return false
  unless ← element eq a.hasDefault b.hasDefault do return false
  defaults eq a.default b.default

def directives (eq : Value → Value → Action Bool) (a b : Directive) : Action Bool := do
  unless ← element eq a.name b.name do return false
  unless ← element eq a.description b.description do return false
  unless ← element eq a.locations.value b.locations.value do return false
  element eq a.args.value b.args.value

/-- Equality of data of at most the given depth. -/
def equalWithin (supply : Supplier) : Nat → Value → Value → Action Bool
  | 0, a, b => throw (if a.isContainer && b.isContainer then .endlessComparison else .endless)
  | n + 1, a, b =>
    let eq := equalWithin supply n
    match a, b with
    | .wrapper w r, .wrapper w' r' =>
      if w = w' ∧ r = r' then pure true
      else if w ≠ w' then pure false
      else do
        let t ← Types.wrapped supply w r
        eq t (← Types.wrapped supply w' r')
    | .argument r, .argument r' =>
      if r = r' then pure true
      else do
        let key ← argumentKey supply r
        argumentKeys eq key (← argumentKey supply r')
    | .directive r, .directive r' =>
      if r = r' then pure true
      else do
        let s ← get
        directives eq (s.directive r) (s.directive r')
    | .list r, .list r' => do
      let xs := (← get).list r
      let ys := (← get).list r'
      if xs.length = ys.length then rows eq xs ys else pure false
    | .set r, .set r' => do
      let xs := (← get).set r
      let ys := (← get).set r'
      if xs.length = ys.length then subset eq ys xs else pure false
    | .dict r, .dict r' => do
      let es := (← get).dict r
      let fs := (← get).dict r'
      if es.length = fs.length then entries eq fs es else pure false
    | _, _ =>
      match a.row?, b.row? with
      | some xs, some ys => rows eq xs ys
      | none, none => pure (atomsEqual a b)
      | _, _ => pure false

def equal (supply : Supplier) (a b : Value) : Action Bool :=
  Action.boundedPairs a.depth fun n => equalWithin supply n a b

/-- Whether a list holds an element that is the datum or equals it. -/
def member (supply : Supplier) (xs : List Value) (v : Value) : Action Bool :=
  contains (equal supply) xs v

end DirectiveSchema.Equality

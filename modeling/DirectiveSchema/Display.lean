import DirectiveSchema.Argument
import DirectiveSchema.Number.Shortest

/-!
Texts of data. Every datum has a label, in which a text stands for itself, and a literal, in which
a text is quoted; the elements of a container are always written as literals. A container that is
met inside itself is not entered again: a mark stands in its place. Types and arguments are resolved
while they are written.
-/
namespace DirectiveSchema.Display

inductive Form where
  | label
  | literal
deriving DecidableEq, Inhabited, Repr

/-- The longest integer that is written in digits. -/
def integerDigitLimit : Nat := 4300

def integer (n : Int) : Action String :=
  let ds := Nat.toDigits 10 n.natAbs
  if integerDigitLimit < ds.length then throw .integerTooLong
  else pure (String.ofList (if n < 0 then '-' :: ds else ds))

def locationLiteral (l : Location) : String :=
  "<DirectiveLocation." ++ l.tag ++ ": '" ++ l.tag ++ "'>"

/-- The label of a named type is its name, which has to be a text. -/
def nameLabel (name : Value) : Action String :=
  match name.text? with
  | some s => pure s
  | none => throw (.labelNotText name.className)

/-- Fills the one place of a format by a datum; a tuple is taken as the list of what to fill in. -/
def fill (label : Value → Action String) (v : Value) : Action String :=
  match v.row? with
  | none => label v
  | some [] => throw .tooFewForFormat
  | some [x] => label x
  | some (x :: _ :: _) => do
    let _ ← label x
    throw .tooManyForFormat

/-- The name of a named type; the class has a marker in place of a name. -/
def typeName (name : Option Value) : Value := name.getD .unnamed

def commaSeparated (parts : List String) : String := ", ".intercalate parts

def braced (s : String) : String := "\x7b" ++ s ++ "\x7d"

/-- Writes a container, or a mark in its place if it is being written already. -/
def enter (supply : Supplier) (v : Value) (mark : String) (body : Supplier → Action String) :
    Action String :=
  if supply.isWriting v then pure mark else body (supply.within v)

/-- The literal of a directive is made of the labels of its name and of its locations. -/
def directiveLiteral (label : Value → Action String) (d : Directive) : Action String := do
  let name ← label d.name
  let locations ← d.locations.items.mapM label
  return "Directive(@" ++ name ++ ", locations=[" ++ commaSeparated locations ++ "])"

/-- Writes a datum of at most the given depth. -/
def write : Nat → Supplier → Form → Value → Action String
  | 0, _, _, _ => throw .endless
  | n + 1, supply, form, v =>
    let label := write n supply .label
    let literal := write n supply .literal
    match v with
    | .null => pure "None"
    | .unnamed => pure "NotImplemented"
    | .bool b => pure (if b then "True" else "False")
    | .int i => integer i
    | .float x => pure x.text
    | .text s => pure (if form = .label then s else Text.quoted s)
    | .bytes bs => pure (Text.quotedBytes bs)
    | .location l => pure (if form = .label then l.tag else locationLiteral l)
    | .foreign _ text => pure text
    | .tuple _ items => enter supply v "(...)" fun inside => do
      let parts ← items.mapM (write n inside .literal)
      return "(" ++ commaSeparated parts ++ (if items.length = 1 then ",)" else ")")
    | .list r => enter supply v "[...]" fun inside => do
      let parts ← ((← get).list r).mapM (write n inside .literal)
      return "[" ++ commaSeparated parts ++ "]"
    | .set r => enter supply v "set(...)" fun inside => do
      let parts ← ((← get).set r).mapM fun m => write n inside .literal m.value
      return if parts.isEmpty then "set()" else braced (commaSeparated parts)
    | .dict r => enter supply v (braced "...") fun inside => do
      let parts ← ((← get).dict r).mapM fun e => do
        let key ← write n inside .literal e.key
        return key ++ ": " ++ (← write n inside .literal e.value)
      return braced (commaSeparated parts)
    | .config _ name locations args description => do
      let name ← literal name
      let locations ← literal locations
      let args ← literal args
      return "DirectiveConfig(name=" ++ name ++ ", locations=" ++ locations ++ ", args=" ++ args ++
        ", description=" ++ (← literal description) ++ ")"
    | .named r => do
      let name := typeName ((← get).namedType r).name
      match form with
      | .label => nameLabel name
      | .literal => return "NamedType(" ++ (← label name) ++ ")"
    | .scalar r => do
      let name := typeName ((← get).scalar r).name
      match form with
      | .label => nameLabel name
      | .literal => return "ScalarType(" ++ (← label name) ++ ")"
    | .wrapper w r => do
      let t ← Types.wrapped supply w r
      match form, w with
      | .label, .list => return "[" ++ (← fill label t) ++ "]"
      | .label, .nonNull => return (← fill label t) ++ "!"
      | _, _ => return w.className ++ "(" ++ (← literal t) ++ ")"
    | .argument r => do
      let name ← Arguments.name r
      let t ← Arguments.type supply r
      let name ← label name
      let t ← label t
      let mark := if form = .literal then " at <id>" else ""
      return "Argument(" ++ name ++ ": " ++ t ++ mark ++ ")"
    | .directive r => do
      let d := (← get).directive r
      match form with
      | .label => return "@" ++ (← label d.name)
      | .literal => directiveLiteral label d
    | .deferred _ => pure "<lazy>"

def label (supply : Supplier) (v : Value) : Action String :=
  Action.boundedPairs v.depth fun n => write n supply .label v

def literal (supply : Supplier) (v : Value) : Action String :=
  match v with
  | .directive r => do directiveLiteral (label supply) ((← get).directive r)
  | _ => Action.boundedPairs v.depth fun n => write n supply .literal v

/-- The label as a datum: a type that is named by a location has that location as its label. -/
def labelValue (supply : Supplier) (v : Value) : Action Value := do
  let name? : Option Value ← match v with
    | .named r => pure (some (typeName ((← get).namedType r).name))
    | .scalar r => pure (some (typeName ((← get).scalar r).name))
    | _ => pure none
  match name? with
  | none => return .text (← label supply v)
  | some name =>
    if name.text?.isSome then pure name else throw (.labelNotText name.className)

/-- Fills the one place of a format. -/
def filled (supply : Supplier) (v : Value) : Action String := fill (label supply) v

/-- Fills the one place of a format by the literal of a datum. -/
def filledLiteral (supply : Supplier) (v : Value) : Action String := fill (literal supply) v

end DirectiveSchema.Display

import DirectiveSchema.Access
import DirectiveSchema.Directive

/-!
Answers: finite pictures of data, ready to be written. Types are shown by their literals, arguments
and directives by their fields. A part that may fail on its own is an outcome, so that its fault
does not hide the rest.
-/
namespace DirectiveSchema

mutual

inductive Answer where
  | null
  | bool (b : Bool)
  | int (n : Int)
  | float (x : Binary64)
  | text (s : String)
  | bytes (bs : List UInt8)
  | location (l : Location)
  | foreign (text : String)
  | list (items : List Answer)
  | tuple (items : List Answer)
  | set (items : List Answer)
  | dict (entries : List (Answer × Answer))
  | type (shown : String)
  | argument (name : Answer) (type : Outcome) (description hasDefault : Answer)
      (default required : Outcome)
  | directive (name locations args description : Answer)
  | config (name locations args description : Answer)
  | deferred
  | kinds (ks : List FaultKind)
  | fields (fs : List (String × Answer))
  | guarded (o : Outcome)

inductive Outcome where
  | ok (a : Answer)
  | fault (kind : FaultKind) (message : String) (name : Option Answer) (cause : Option FaultKind)

end

instance : Inhabited Answer := ⟨.null⟩

instance : Inhabited Outcome := ⟨.ok .null⟩

namespace Answer

/-- What is reported of a fault, given how data are shown. -/
def ofFault (shown : Value → Action Answer) (f : Fault) : Action Outcome := do
  let cause := f.cause?.map Fault.kind
  match f.offendingName? with
  | none => return .fault f.kind f.message none cause
  | some v => return .fault f.kind f.message (some (← shown v)) cause

/-- The outcome of an action, shown. -/
def guardWith (shown : Value → Action Answer) (act : Action Answer) : Action Outcome :=
  tryCatch (return .ok (← act)) (ofFault shown)

/-- Shows a datum of at most the given depth. -/
def ofWithin (supply : Supplier) : Nat → Value → Action Answer
  | 0, _ => throw .endless
  | n + 1, v =>
    let shown := ofWithin supply n
    match v with
    | .null => pure .null
    | .unnamed => pure (.foreign "NotImplemented")
    | .bool b => pure (.bool b)
    | .int i => pure (.int i)
    | .float x => pure (.float x)
    | .text s => pure (.text s)
    | .bytes bs => pure (.bytes bs)
    | .location l => pure (.location l)
    | .foreign _ t => pure (.foreign t)
    | .tuple _ items => return .tuple (← items.mapM shown)
    | .config _ name locations args description => do
      let name ← shown name
      let locations ← shown locations
      let args ← shown args
      return .config name locations args (← shown description)
    | .list r => do
      let items := (← get).list r
      return .list (← items.mapM shown)
    | .set r => do
      let items := (← get).set r
      return .set (← items.mapM fun m => shown m.value)
    | .dict r => do
      let entries := (← get).dict r
      return .dict (← entries.mapM fun e => do
        let key ← shown e.key
        return (key, ← shown e.value))
    | .named _ | .scalar _ | .wrapper _ _ => return .type (← Display.literal supply v)
    | .argument r => do
      let name ← shown (← Arguments.name r)
      let type ← guardWith shown (do shown (← Arguments.type supply r))
      let description ← shown (← Arguments.description r)
      let hasDefault ← shown (← Arguments.hasDefault r)
      let default ← guardWith shown (do shown (← Arguments.default r))
      let required ← guardWith shown (return .bool (← Arguments.required supply r))
      return .argument name type description hasDefault default required
    | .directive r => do
      let d := (← get).directive r
      let name ← shown d.name
      let locations ← shown d.locations.value
      let args ← shown d.args.value
      return .directive name locations args (← shown d.description)
    | .deferred _ => pure .deferred

/-- Shows a datum. -/
def of (supply : Supplier) (v : Value) : Action Answer :=
  Action.bounded v.depth fun n => ofWithin supply n v

/-- The outcome of an action, shown. -/
def guard (supply : Supplier) (act : Action Answer) : Action Outcome :=
  guardWith (of supply) act

/-- The outcome of an action as a part of an answer. -/
def attempt (supply : Supplier) (act : Action Answer) : Action Answer :=
  return .guarded (← guard supply act)

def attemptValue (supply : Supplier) (act : Action Value) : Action Answer :=
  attempt supply (do of supply (← act))

def attemptText (supply : Supplier) (act : Action String) : Action Answer :=
  attempt supply (return .text (← act))

end Answer

end DirectiveSchema

import DirectiveSchema.BuiltIn
import DirectiveSchema.Container.Keyed
import DirectiveSchema.Directive

/-!
Stored copies. A snapshot pictures what is reached from a datum, each object once; restoring it
builds new objects of the same shape, and directives by their constructor. Plain data and the
built-in scalars stay themselves. Types are resolved before they are pictured; a deferred type has
no picture.
-/
namespace DirectiveSchema

/-- What becomes of an object that is built from its parts: it gets a number, or it gives way to the
object of that number, which was met inside it and was built before it. -/
inductive Slot where
  | new (k : Nat)
  | old (k : Nat)
deriving DecidableEq, Inhabited, Repr

/-- A picture of a datum. Numbered parts are new objects; `seen` stands for a part met before. -/
inductive Snapshot where
  | atom (v : Value)
  | nan
  | seen (k : Nat)
  | foreign (k : Nat) (text : String)
  | tuple (slot : Slot) (items : List Snapshot)
  | config (slot : Slot) (name locations args description : Snapshot)
  | list (k : Nat) (items : List Snapshot)
  | set (k : Nat) (items : List Snapshot)
  | dict (k : Nat) (entries : List (Snapshot × Snapshot))
  | named (k : Nat) (name : Option Snapshot) (extra : List (String × Snapshot))
  | scalar (slot : Slot) (name description : Snapshot) (serialize parse : Coercion)
  | wrapper (k : Nat) (w : Wrapper) (type : Snapshot)
  | argument (k : Nat) (name description hasDefault default : Option Snapshot) (type : Snapshot)
      (extra : List (String × Snapshot))
  | directive (slot : Slot) (name locations args description : Snapshot)

instance : Inhabited Snapshot := ⟨.nan⟩

namespace Snapshot

/-- The objects pictured so far, the latest first. -/
abbrev Taking := StateT (List Value) Action

/-- The number of an object that was pictured before. -/
def number? (v : Value) : List Value → Option Nat
  | [] => none
  | u :: rest => if u.same v then some rest.length else number? v rest

/-- Numbers are given in order. -/
theorem number?_cons_self (v : Value) (seen : List Value) :
    number? v (v :: seen) = some seen.length := by
  simp [number?, Value.same_refl]

/-- Numbers an object whose parts are still to be pictured. -/
def enter (v : Value) : Taking Nat :=
  modifyGet fun seen => (seen.length, v :: seen)

/-- The slot of an object whose parts are pictured, and what was met by then. -/
def slotOf (v : Value) (seen : List Value) : Slot × List Value :=
  match number? v seen with
  | some k => (.old k, seen)
  | none => (.new seen.length, v :: seen)

/-- Numbers an object whose parts are pictured, unless it was met among them. -/
def leave (v : Value) : Taking Slot := modifyGet (slotOf v)

/-- Pictures an optional part. -/
def part (f : Value → Taking Snapshot) : Option Value → Taking (Option Snapshot)
  | none => pure none
  | some v => return some (← f v)

def attributes (f : Value → Taking Snapshot) (as : Attributes) :
    Taking (List (String × Snapshot)) :=
  as.mapM fun p => return (p.1, ← f p.2)

/-- Pictures what is wrapped. What lies in the end within all wrappers is left to `next`. -/
def ofWrapped (f next : Value → Taking Snapshot) (t : Value) : Taking Snapshot :=
  if t.isWrapper then f t else next t

/-- Pictures an object that was not met before; `f` pictures its parts, but for the type of an
argument and an innermost type, which are left to `next`. -/
def ofObject (supply : Supplier) (f next : Value → Taking Snapshot) (v : Value) :
    Taking Snapshot := do
  match v with
  | .float (.nan _) => return .nan
  | .foreign _ text => return .foreign (← enter v) text
  | .tuple _ items =>
    if items.isEmpty then return .atom v
    let parts ← items.mapM f
    return .tuple (← leave v) parts
  | .config _ name locations args description =>
    let name ← f name
    let locations ← f locations
    let args ← f args
    let description ← f description
    return .config (← leave v) name locations args description
  | .list r =>
    let k ← enter v
    return .list k (← ((← getThe Session).list r).mapM f)
  | .set r =>
    let k ← enter v
    return .set k (← ((← getThe Session).set r).mapM fun m => f m.value)
  | .dict r =>
    let k ← enter v
    return .dict k (← ((← getThe Session).dict r).mapM fun e => do
      let key ← f e.key
      return (key, ← f e.value))
  | .named r =>
    let k ← enter v
    let cell := (← getThe Session).namedType r
    let name ← part f cell.name
    return .named k name (← attributes f cell.extra)
  | .scalar r =>
    if BuiltIn.isScalar r then return .atom v
    let cell := (← getThe Session).scalar r
    let description ← liftM (Arguments.present "ScalarType" "description" cell.description)
    let name ← f (Display.typeName cell.name)
    let description ← f description
    return .scalar (← leave v) name description cell.serialize cell.parse
  | .wrapper w r =>
    let _ ← liftM (Types.wrapped supply w r)
    let t ← liftM (Types.wrapped supply w r)
    let k ← enter v
    return .wrapper k w (← ofWrapped f next t)
  | .argument r =>
    let t ← liftM (Arguments.type supply r)
    let cell := (← getThe Session).argument r
    let k ← enter v
    let name ← part f cell.name
    let description ← part f cell.description
    let hasDefault ← part f cell.hasDefault
    let default ← part f cell.default
    let type ← next t
    return .argument k name description hasDefault default type (← attributes f cell.extra)
  | .directive r =>
    let d := (← getThe Session).directive r
    let name ← f d.name
    let locations ← f d.locations.value
    let args ← f d.args.value
    let description ← f d.description
    return .directive (← leave v) name locations args description
  | .deferred _ => throw .uncopyable
  | _ => return .atom v

/-- Pictures a datum of at most the given depth. -/
def takeRound (supply : Supplier) (next : Value → Taking Snapshot) : Nat → Value → Taking Snapshot
  | 0, _ => throw .endless
  | n + 1, v => do
    match number? v (← get) with
    | some k => return .seen k
    | none => ofObject supply (takeRound supply next n) next v

/-- Pictures a datum in rounds, at most the given number inside each other. The type of an argument
and the innermost type of a wrapper are rounds of their own, with a bound that fits the session in
which they were resolved. -/
def takeWithin (supply : Supplier) : Nat → Value → Taking Snapshot
  | 0, _ => throw .endless
  | n + 1, v => fun seen =>
    Action.boundedPairs v.depth fun m => takeRound supply (takeWithin supply n) m v seen

/-- The picture of a datum. -/
def take (supply : Supplier) (v : Value) : Action Snapshot :=
  Action.boundedPairs v.depth fun n => return (← (takeWithin supply n v).run []).1

/-- The new objects by their numbers. -/
abbrev Restoring := StateT (List (Nat × Value)) Action

/-- Numbers a new object. -/
def settle (k : Nat) (v : Value) : Restoring Value :=
  modifyGet fun built => (v, (k, v) :: built)

/-- The new object of a number. -/
def built (k : Nat) : Restoring Value := return ((← get).lookup k).getD .null

/-- Numbers a new object, or leaves it for the one that was built before it. -/
def place : Slot → Value → Restoring Value
  | .new k, v => settle k v
  | .old k, _ => built k

/-- Builds an object that is numbered before its content is built. -/
def fill {kind : CellKind} {content : Type} (k : Nat) (new : Action (Ref kind))
    (value : Ref kind → Value) (put : Session → Ref kind → content → Session)
    (build : Restoring content) : Restoring Value := do
  let r ← liftM new
  let v ← settle k (value r)
  let c ← build
  modifyThe Session fun s => put s r c
  return v

/-- Builds an object of its parts, unless it was built while they were. -/
def make {parts : Type} (slot : Slot) (build : Restoring parts) (construct : parts → Action Value) :
    Restoring Value := do
  let parts ← build
  place slot (← liftM (construct parts))

/-- The fields that a record and a directive have in common. -/
structure Fields where
  name : Value
  locations : Value
  args : Value
  description : Value
deriving Inhabited

def fields (name locations args description : Restoring Value) : Restoring Fields := do
  let name ← name
  let locations ← locations
  let args ← args
  let description ← description
  return { name, locations, args, description }

mutual

/-- Builds what is pictured. -/
def restoreWith (supply : Supplier) : Snapshot → Restoring Value
  | .atom v => pure v
  | .nan => return .float (.nan (← liftM Action.freshTag))
  | .seen k => built k
  | .foreign k text => do settle k (.foreign (← liftM Action.freshTag) text)
  | .tuple slot items =>
    make slot (restoreAll supply items) fun items => return (← Action.newRow items).value
  | .config slot name locations args description =>
    make slot (fields (restoreWith supply name) (restoreWith supply locations)
      (restoreWith supply args) (restoreWith supply description)) fun f =>
        return .config (← Action.freshTag) f.name f.locations f.args f.description
  | .list k items =>
    fill k (Action.newList []) .list Session.putList (restoreAll supply items)
  | .set k items =>
    fill k (Action.newSet []) .set Session.putSet do
      let items ← restoreAll supply items
      liftM (Container.distinct supply items)
  | .dict k entries =>
    fill k (Action.newDict []) .dict Session.putDict do
      let pairs ← restoreEntries supply entries
      liftM (Container.dictionary supply pairs)
  | .named k name extra =>
    fill k (Action.newNamedType .blank) .named Session.putNamedType do
      let name ← restorePart supply name
      let extra ← restoreAttributes supply extra
      return { name, extra }
  | .scalar slot name description serialize parse =>
    make slot (do return (← restoreWith supply name, ← restoreWith supply description)) fun p =>
      return .scalar (← Action.newScalar
        { name := some p.1, description := some p.2, serialize, parse, extra := [] })
  | .wrapper k w type =>
    fill k (Action.newWrapper .blank) (.wrapper w) Session.putWrapper do
      let type ← restoreWith supply type
      return Types.known type
  | .argument k name description hasDefault default type extra =>
    fill k (Action.newArgument .blank) .argument Session.putArgument do
      let name ← restorePart supply name
      let description ← restorePart supply description
      let hasDefault ← restorePart supply hasDefault
      let default ← restorePart supply default
      let type ← restoreWith supply type
      let extra ← restoreAttributes supply extra
      return {
        name, description, hasDefault, default, source := type, resolved := Types.kept type, extra }
  | .directive slot name locations args description =>
    make slot (fields (restoreWith supply name) (restoreWith supply locations)
      (restoreWith supply args) (restoreWith supply description)) fun f =>
        return .directive (← Directives.create supply f.name f.locations f.args f.description)

def restoreAll (supply : Supplier) : List Snapshot → Restoring (List Value)
  | [] => pure []
  | p :: ps => do
    let v ← restoreWith supply p
    return v :: (← restoreAll supply ps)

def restoreEntries (supply : Supplier) :
    List (Snapshot × Snapshot) → Restoring (List (Value × Value))
  | [] => pure []
  | (k, v) :: ps => do
    let k ← restoreWith supply k
    let v ← restoreWith supply v
    return (k, v) :: (← restoreEntries supply ps)

def restorePart (supply : Supplier) : Option Snapshot → Restoring (Option Value)
  | none => pure none
  | some p => return some (← restoreWith supply p)

def restoreAttributes (supply : Supplier) : List (String × Snapshot) → Restoring Attributes
  | [] => pure []
  | (key, p) :: ps => do
    let v ← restoreWith supply p
    return (key, v) :: (← restoreAttributes supply ps)

end

/-- Builds new objects of the pictured shape. -/
def restore (supply : Supplier) (p : Snapshot) : Action Value :=
  return (← (restoreWith supply p).run []).1

/-- The stored copy of a datum: what its picture shows, restored. -/
def copy (supply : Supplier) (v : Value) : Action Value := do
  restore supply (← take supply v)

end Snapshot

end DirectiveSchema

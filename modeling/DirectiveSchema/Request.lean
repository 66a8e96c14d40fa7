import DirectiveSchema.Copy
import DirectiveSchema.Description
import DirectiveSchema.Evaluation
import DirectiveSchema.Release.Report
import DirectiveSchema.Scalar
import DirectiveSchema.Validation

/-!
Requests: what can be asked of a session, one after the other, of the data in it or of the release
of a project. Running a request evaluates its data, performs it and shows what came of it. A request
that names its result binds the name when it succeeds; one that fails binds nothing, and the session
goes on as the request left it.
-/
namespace DirectiveSchema

inductive Request where
  | isValidName (value : Expression)
  | assertValidName (value : Expression)
  | isLocation (value : Expression)
  | getLocation (value : Expression)
  | serialize (scalar value : Expression)
  | parse (scalar value : Expression)
  | coerceInteger (value : Expression)
  | coerceFloat (value : Expression)
  | specifiedScalar (value : Expression)
  | demand (type : TypeExpression)
  | isInputType (value : Expression)
  | unwrapType (value : Expression)
  | nullableType (value : Expression)
  | isSpecifiedDirective (value : Expression)
  | validate (directives : Expression)
  | error (kind : FaultKind) (args : Expression)
  | library
  | describe (value : Expression)
  | declare (name : String) (value : Expression)
  | declareType (name : String) (type : TypeExpression)
  | value (value : Expression)
  | get (value : Expression) (key : String) (name : Option String)
  | set (value : Expression) (key : String) (new : Expression)
  | delete (value : Expression) (key : String)
  | item (value key : Expression) (name : Option String)
  | append (value item : Expression)
  | label (value : Expression)
  | literal (value : Expression)
  | equal (a b : Expression)
  | unequal (a b : Expression)
  | same (a b : Expression)
  | hashEqual (a b : Expression)
  | distinct (items : Expression)
  | copy (value : Expression) (mode : CopyMode) (name : Option String)
  | wrap (w : Wrapper) (value : Expression) (name : Option String)
  | calls (counter : String)
  | appliesTo (value location : Expression)
  | toConfig (value : Expression) (name : Option String)
  | fromConfig (value : Expression) (name : Option String)
  | mapGet (value key : Expression)
  | mapSet (value key new : Expression)
  | mapDelete (value key : Expression)
  | tasks
  | task (name : String) (args : List (String × Expression)) (shell : Release.Shell)
      (files : Release.Workspace)
  | join (parts : List Expression)
  | requirements (folder : String) (paths : List String) (files : Release.Workspace)
  | writtenVersion (folder : String) (files : Release.Workspace)
  | package (folder : String) (files : Release.Workspace)

/-- What came of a request, and the notices that it gave. -/
structure Reply where
  outcome : Outcome
  notices : List Notice
deriving Inhabited

namespace Request

/-- Binds a name, if one is given. -/
def bindName (name : Option String) (v : Value) : Action Unit :=
  match name with
  | none => pure ()
  | some x => modify fun s => s.bind x v

/-- Shows a result and binds it. -/
def showBound (supply : Supplier) (name : Option String) (v : Value) : Action Answer := do
  let shown ← Answer.of supply v
  bindName name v
  return shown

/-- Answers the class of a result and binds it. -/
def classBound (name : Option String) (v : Value) : Action Answer := do
  bindName name v
  return .text v.className

/-- The location that a datum names. -/
def location (supply : Supplier) (v : Value) : Action Value := do
  match v.text?.bind Location.ofTag? with
  | some l => pure (.location l)
  | none => throw (.unknownLocation (← Display.literal supply v))

/-- The scalar type in a datum, on which a coercion is called. -/
def asScalar (v : Value) (operation : String) : Action (Ref .scalar) :=
  match v with
  | .scalar r => pure r
  | _ => throw (.noAttribute v.className operation)

/-- The name of the operation that wraps a type. -/
def wrapOperation : Wrapper → String
  | .list => "as_list"
  | .nonNull => "as_non_null"
  | .plain => "wrap"

/-- Performs a request. -/
def perform (supply : Supplier) : Request → Action Answer
  | isValidName e => return .bool (← e.eval supply).isName
  | assertValidName e => do Answer.of supply (← Directives.assertName supply (← e.eval supply)).val
  | isLocation e => return .bool (← e.eval supply).isLocation
  | getLocation e => do Answer.of supply (← location supply (← e.eval supply))
  | serialize scalar e => do
    let scalar ← scalar.eval supply
    let v ← e.eval supply
    Answer.of supply (← Scalars.serialize supply (← asScalar scalar "serialize") v)
  | parse scalar e => do
    let scalar ← scalar.eval supply
    let v ← e.eval supply
    Answer.of supply (← Scalars.parse supply (← asScalar scalar "parse") v)
  | coerceInteger e => return .int (← Scalars.integer supply (← e.eval supply))
  | coerceFloat e => return .float (← Scalars.float supply (← e.eval supply))
  | specifiedScalar e => do
    Answer.of supply (← BuiltIn.specifiedScalar supply (← e.eval supply))
  | demand t => do Answer.of supply (← Types.demand supply (← t.eval supply))
  | isInputType e => return .bool (← Types.isInput supply (← e.eval supply))
  | unwrapType e => do Answer.of supply (← Types.unwrap supply (← e.eval supply))
  | nullableType e => do Answer.of supply (← Types.nullable supply (← e.eval supply))
  | isSpecifiedDirective e => return .bool (← Directives.isSpecified (← e.eval supply))
  | validate e => do
    Validation.validate supply (← e.eval supply)
    return .bool true
  | error kind args => do
    Description.ofError supply kind (← Container.elements (← args.eval supply))
  | library => Description.ofLibrary supply
  | describe e => do Description.of supply (← e.eval supply)
  | declare name e => do classBound (some name) (← e.eval supply)
  | declareType name t => do classBound (some name) (← t.eval supply)
  | value e => do Answer.of supply (← e.eval supply)
  | get e key name => do showBound supply name (← Access.get supply (← e.eval supply) key)
  | set e key new => do
    let v ← e.eval supply
    Access.set v key (← new.eval supply)
    return .null
  | delete e key => do
    Access.delete (← e.eval supply) key
    return .null
  | item e key name => do
    let v ← e.eval supply
    showBound supply name (← Access.item supply v (← key.eval supply))
  | append e x => do
    let v ← e.eval supply
    Access.append v (← x.eval supply)
    return .null
  | label e => do Answer.of supply (← Display.labelValue supply (← e.eval supply))
  | literal e => return .text (← Display.literal supply (← e.eval supply))
  | equal a b => do
    let a ← a.eval supply
    return .bool (← Equality.equal supply a (← b.eval supply))
  | unequal a b => do
    let a ← a.eval supply
    return .bool !(← Equality.equal supply a (← b.eval supply))
  | same a b => do
    let a ← a.eval supply
    return .bool (a.same (← b.eval supply))
  | hashEqual a b => do
    let a ← a.eval supply
    let b ← b.eval supply
    let key ← HashKey.of supply a
    return .bool (decide (key = (← HashKey.of supply b)))
  | distinct e => do
    let items ← Container.elements (← e.eval supply)
    return .int (← Container.distinct supply items).length
  | copy e mode name => do classBound name (← (← e.eval supply).copy supply mode)
  | wrap w e name => do
    let v ← e.eval supply
    if !v.isType then throw (.noAttribute v.className (wrapOperation w))
    showBound supply name (← Types.wrap w v)
  | calls counter => return .int ((← MonadState.get).callCount counter)
  | appliesTo e l => do
    let v ← e.eval supply
    let l ← l.eval supply
    return .bool (← Directives.appliesTo supply (← Access.asDirective v "applies_to") l)
  | toConfig e name => do
    let r ← Access.asDirective (← e.eval supply) "to_config"
    showBound supply name (← Directives.toConfig r)
  | fromConfig e name => do
    showBound supply name (.directive (← Access.fromConfig supply (← e.eval supply)))
  | mapGet e key => do
    let v ← e.eval supply
    Answer.of supply (← Access.mapGet supply v (← key.eval supply))
  | mapSet e key new => do
    let v ← e.eval supply
    let _ ← key.eval supply
    let _ ← new.eval supply
    let _ ← Access.mapOf supply v
    throw (.frozenMapping false)
  | mapDelete e key => do
    let v ← e.eval supply
    let _ ← key.eval supply
    let _ ← Access.mapOf supply v
    throw (.frozenMapping true)
  | tasks => return .list (Release.Task.all.map Release.Report.ofTask)
  | task name args shell files => do
    let args ← args.mapM fun a => return (a.1, ← a.2.eval supply)
    let (outcome, bench) ← Release.Invocation.run supply shell name args ⟨files, []⟩
    return Release.Report.ofRun outcome bench
  | join parts => Answer.attemptText supply (do
      Container.joinedTruthy (← parts.mapM fun e => e.eval supply))
  | requirements folder paths files =>
    return Release.Report.ofReading Release.Report.textList
      (Release.Package.requirementsIn folder files paths)
  | writtenVersion folder files =>
    return Release.Report.ofReading .text (Release.Package.writtenVersion folder files)
  | package folder files =>
    return Release.Report.ofReading Release.Report.ofPackage (Release.Package.read folder files)

end Request

namespace Session

/-- The result of an action that cannot fail further. -/
def settle (s : Session) : EStateM.Result Fault Session Outcome → Outcome × Session
  | .ok o s' => (o, s')
  | .error f s' => (.fault f.kind f.message none (f.cause?.map Fault.kind), { s' with
      bindings := s.bindings })

/-- Runs a request: its reply, and the session that it leaves. -/
def run (s : Session) (q : Request) : Reply × Session :=
  let quiet := { s with journal := [] }
  let supply := Deferred.supplier
  let (outcome, s') := quiet.settle (Answer.guard supply (q.perform supply) quiet)
  (⟨outcome, s'.journal⟩, { s' with journal := s.journal ++ s'.journal })

/-- Runs requests one after the other. -/
def runAll (s : Session) : List Request → List Reply × Session
  | [] => ([], s)
  | q :: qs =>
    let (reply, s') := s.run q
    let (replies, s'') := s'.runAll qs
    (reply :: replies, s'')

theorem length_runAll (s : Session) (qs : List Request) :
    (s.runAll qs).1.length = qs.length := by
  induction qs generalizing s with
  | nil => rfl
  | cons q qs ih => simp [runAll, ih]

end Session

end DirectiveSchema

import DirectiveSchema.Answer
import DirectiveSchema.Container
import DirectiveSchema.Release.Job
import DirectiveSchema.Release.Task

/-!
Invocations: a task is asked for by name, with data for its parameters. The tasks that go before it
run first, without data; the first that fails ends the invocation.
-/
namespace DirectiveSchema.Release.Invocation

/-- Data by the parameters they are for. -/
abbrev Arguments := List (String × Value)

/-- Checks the data against the parameters of a task: each is for a parameter, other than the one
that stands for the shell, and no parameter without a default is left out. -/
def check (t : Task) (args : Arguments) : Action Unit := do
  match args.find? fun a => !t.parameters.contains a.1 with
  | some ("ctx", _) => throw (.repeatedField t.signature "ctx")
  | some (other, _) => throw (.unexpectedField t.signature other)
  | none => pure ()
  match t.required.filter fun p => (args.lookup p).isNone with
  | [] => pure ()
  | missing => throw (.missingFields t.signature missing)

def argument (args : Arguments) (parameter : String) : Value :=
  (args.lookup parameter).getD .null

/-- A parameter that is on or off. -/
def flag (args : Arguments) (parameter : String) (standard : Bool) : Action Bool :=
  match args.lookup parameter with
  | none => pure standard
  | some v => Container.isTruthy v

/-- The targets asked for, or the ones that a task has without. -/
def targets (args : Arguments) (standard : String) : Action String := do
  let v := argument args "files"
  if ← Container.isTruthy v then Container.joined v else return standard

/-- The label of a datum that counts as true. -/
def labelIfTruthy (supply : Supplier) (v : Value) : Action (Option String) := do
  if ← Container.isTruthy v then return some (← Display.label supply v) else return none

/-- The labels of the elements of a datum that counts as true. -/
def labels (supply : Supplier) (v : Value) : Action (List String) := do
  if ← Container.isTruthy v then (← Container.elements v).mapM (Display.label supply)
  else return []

def testRun (supply : Supplier) (args : Arguments) : Action TestRun := do
  let targets ← targets args defaultTargets
  let filter ← labelIfTruthy supply (argument args "grep")
  let ignored ← labels supply (argument args "ignore")
  return {
    coverage := ← flag args "coverage" false
    hideCoverage := ← flag args "hide_coverage_stats" false
    bail := ← flag args "bail" true
    verbose := ← flag args "verbose" false
    filter
    targets
    report := ← flag args "junit" false
    ignored
    parallel := ← flag args "parallel" false
    watch := ← flag args "watch" false }

def versionUpdate (args : Arguments) : Action VersionUpdate := do
  let v := argument args "version"
  match v.text? with
  | none => throw (.notMatchable v.className)
  | some version =>
    return {
      version
      force := ← flag args "force" false
      push := ← flag args "push" false }

/-- The job that a task with some data is. -/
def job (supply : Supplier) (t : Task) (args : Arguments) : Action Job := do
  check t args
  match t with
  | .build => return .build
  | .check => return .check
  | .clean => return .clean (← flag args "full" false)
  | .lint =>
    let targets ← targets args (defaultTargets ++ " setup.py")
    return .lint targets (← flag args "junit" false)
  | .format => return .format (← targets args (defaultTargets ++ " setup.py tasks.py"))
  | .typeCheck =>
    let targets ← targets args defaultTargets
    return .typeCheck targets (← flag args "junit" false)
  | .test => return .test (← testRun supply args)
  | .updateVersion => return .updateVersion (← versionUpdate args)

def failed (f : Failure) : Outcome := .fault f.kind f.message none none

/-- Does a job. -/
def perform (shell : Shell) (j : Job) (b : Bench) : Outcome × Bench :=
  match j.work shell b with
  | .ok _ b' => (.ok .null, b')
  | .error f b' => (failed f, b')

/-- Runs one task alone. -/
def runAlone (supply : Supplier) (shell : Shell) (t : Task) (args : Arguments) (b : Bench) :
    Action (Outcome × Bench) :=
  tryCatch (return perform shell (← job supply t args) b) fun f =>
    return (← Answer.ofFault (Answer.of supply) f, b)

/-- Runs tasks one after the other, up to the first that fails. -/
def runInTurn (supply : Supplier) (shell : Shell) :
    List (Task × Arguments) → Bench → Action (Outcome × Bench)
  | [], b => return (.ok .null, b)
  | (t, args) :: rest, b => do
    match ← runAlone supply shell t args b with
    | (.ok _, b') => runInTurn supply shell rest b'
    | failure => return failure

/-- Runs the task of a name, after the tasks that go before it. -/
def run (supply : Supplier) (shell : Shell) (name : String) (args : Arguments) (b : Bench) :
    Action (Outcome × Bench) :=
  match Task.named? name with
  | none => return (failed (.unknownTask (Task.lookupName name)), b)
  | some t => runInTurn supply shell ((t.before.map fun p => (p, [])) ++ [(t, args)]) b

end DirectiveSchema.Release.Invocation

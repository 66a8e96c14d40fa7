import DirectiveSchema.Release.Shell
import DirectiveSchema.Release.Version
import DirectiveSchema.Release.VersionFile

/-!
Jobs: tasks with all that they were asked to do, and the work each of them is.
-/
namespace DirectiveSchema.Release

/-- The folder of the library, and what is checked unless something else is asked for. -/
def libraryFolder : String := "src/gql_directives"

def defaultTargets : String := libraryFolder ++ " tests"

structure TestRun where
  coverage : Bool
  hideCoverage : Bool
  bail : Bool
  verbose : Bool
  /-- Only tests with a matching name run. -/
  filter : Option String
  targets : String
  report : Bool
  ignored : List String
  parallel : Bool
  watch : Bool
deriving DecidableEq, Inhabited

structure VersionUpdate where
  version : String
  /-- Neither the order of the versions nor other changed files stop the update. -/
  force : Bool
  push : Bool
deriving DecidableEq, Inhabited

inductive Job where
  | build
  | check
  | clean (full : Bool)
  | lint (targets : String) (report : Bool)
  | format (targets : String)
  | typeCheck (targets : String) (report : Bool)
  | test (run : TestRun)
  | updateVersion (update : VersionUpdate)
deriving DecidableEq, Inhabited

/-- The words that are not empty, with blanks between them. -/
def commandLine (words : List String) : String :=
  " ".intercalate (words.filter fun w => w != "")

/-- A word that is there under a condition. -/
def wordIf (condition : Bool) (word : String) : String := if condition then word else ""

namespace Job

/-- The commands that remove what builds and tests leave behind. -/
def cleaning : List String := [
  "find src tests -type f -name \"*.pyc\" -delete",
  "find src tests -type f -name \"*.pyo\" -delete",
  "find src tests -type f -name \"*.pyd\" -delete",
  "find src tests -type d -name \"__pycache__\" -delete",
  "find src tests -type f -name \"*.c\" -delete",
  "find src tests -type f -name \"*.so\" -delete",
  "find . src tests -type f -path \"*.egg-info*\" -delete"]

/-- The command that removes caches, reports and distributions too. -/
def deepCleaning : String :=
  commandLine ["rm", "-rf ", ".pytest_cache", ".mypy_cache", "junit*.xml", "htmlcov*",
    "coverage*.xml", ".coverage*", "flake8.*", "dist", "build"]

def testCommand (o : TestRun) : String :=
  commandLine [
    "py.test",
    "-c setup.cfg",
    wordIf o.bail "--exitfirst",
    wordIf o.coverage
      ("--cov " ++ libraryFolder ++ " --cov-config setup.cfg --no-cov-on-fail"),
    wordIf (o.coverage && o.hideCoverage) "--cov-report=",
    wordIf o.report "--junit-xml junit.xml",
    wordIf o.watch "--looponfail",
    if o.verbose then "-vvl --full-trace" else "-q",
    "-rf",
    match o.filter with
    | some f => "-k " ++ f
    | none => "",
    wordIf o.parallel "-n auto",
    " ".intercalate (o.ignored.map fun i => "--ignore " ++ i),
    o.targets]

def lintWork (shell : Shell) (targets : String) (report : Bool) : Work Unit :=
  try
    let _ ← shell.issue
      (commandLine ["flake8", wordIf report "--output-file flake8.txt --tee", targets]) [.echo]
  finally
    if report then
      let _ ← shell.issue "flake8_junit flake8.txt flake8.junit.xml" [.echo]

/-- The declared version of the project. -/
def currentVersion (force : Bool) : Work String := do
  let text ← MonadExcept.ofExcept ((← get).workspace.read VersionFile.path VersionFile.path)
  match VersionFile.declared? text with
  | none => throw .undeclaredVersion
  | some (.number _) => throw (if force then .irreplaceableVersion else .incomparableVersion)
  | some (.text current) => return current

/-- Replaces one version by another wherever it occurs in the version file. -/
def replaceVersion (current version : String) : Work Unit := do
  let text ← MonadExcept.ofExcept ((← get).workspace.read VersionFile.path VersionFile.path)
  let updated := Text.replaceAll current.toList version.toList text
  modify fun b => { b with
    workspace := b.workspace.write VersionFile.path (String.ofList updated) }

/-- The command that lists the modified files. -/
def listing : String := "git ls-files -m"

/-- Commits the version file, if no other file is modified, and tags the commit. -/
def commitVersion (shell : Shell) (o : VersionUpdate) : Work Unit := do
  let modified ← shell.issueAtRoot listing [.hidden]
  Work.refuseIf (!o.force && Text.strip modified != VersionFile.path) .otherChanges
  shell.issueAllAtRoot [] [
    "git add " ++ VersionFile.path,
    "git commit -m v" ++ o.version,
    "git tag v" ++ o.version]
  if o.push then shell.issueAllAtRoot [] ["git push && git push --tags"]

/-- Writes a new version into the version file and commits it. -/
def updateWork (shell : Shell) (o : VersionUpdate) : Work Unit := do
  Work.refuseIf (!Version.isAccepted o.version) .badVersionFormat
  let current ← currentVersion o.force
  Work.refuseIf (!o.force && !decide (current < o.version)) (.notLater current)
  replaceVersion current o.version
  commitVersion shell o

/-- The work of a job. -/
def work (shell : Shell) : Job → Work Unit
  | build =>
    shell.issueAllAtRoot [.echo] ["rm -rf dist", "python setup.py sdist bdist_wheel"]
  | check => pure ()
  | clean full => shell.issueAllAtRoot [] (if full then cleaning ++ [deepCleaning] else cleaning)
  | lint targets report => lintWork shell targets report
  | format targets =>
    shell.issueAllAtRoot [.echo] [commandLine ["isort", targets], commandLine ["black", targets]]
  | typeCheck targets report => do
    let _ ← shell.issue
      (commandLine ["mypy", wordIf report "--junit-xml mypy.junit.xml", targets]) [.echo]
  | test run => do
    let _ ← shell.issueAtRoot (testCommand run) [.echo, .terminal]
  | updateVersion update => updateWork shell update

end Job

end DirectiveSchema.Release

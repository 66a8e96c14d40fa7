import DirectiveSchema.Text.Quoted

/-!
The tasks of the project: their names, the tasks that go before them and the parameters they take.
-/
namespace DirectiveSchema.Release

inductive Task where
  | build
  | check
  | clean
  | lint
  | format
  | typeCheck
  | test
  | updateVersion
deriving DecidableEq, Inhabited, Repr

namespace Task

/-- The tasks in the order of their names. -/
def all : List Task := [build, check, clean, lint, format, typeCheck, test, updateVersion]

theorem mem_all (t : Task) : t ∈ all := by cases t <;> decide

def name : Task → String
  | build => "build"
  | check => "check"
  | clean => "clean"
  | lint => "flake8"
  | format => "fmt"
  | typeCheck => "mypy"
  | test => "test"
  | updateVersion => "update-version"

/-- Other names under which a task is found. -/
def aliases : Task → List String
  | format => ["format"]
  | typeCheck => ["typecheck"]
  | _ => []

/-- The name of a task in messages on its parameters. -/
def signature : Task → String
  | updateVersion => "update_version"
  | t => t.name

/-- The tasks that run before a task. -/
def before : Task → List Task
  | check => [lint, typeCheck, test]
  | _ => []

def parameters : Task → List String
  | build | check => []
  | clean => ["full"]
  | lint | typeCheck => ["files", "junit"]
  | format => ["files"]
  | test =>
    ["coverage", "hide_coverage_stats", "bail", "verbose", "grep", "files", "junit", "ignore",
      "parallel", "watch"]
  | updateVersion => ["version", "force", "push"]

/-- The parameters without a default. -/
def required : Task → List String
  | updateVersion => ["version"]
  | _ => []

/-- The parameters that collect their values in a list. -/
def listParameters : Task → List String
  | lint | format | typeCheck => ["files"]
  | test => ["files", "ignore"]
  | _ => []

/-- What a task does, in words. -/
def summary? : Task → Option String
  | build => some "\n    Build source distribution and wheel.\n    "
  | check => some "\n    Run all checks (formatting, lint, typecheck and tests).\n    "
  | clean => some "\n    Remove artifacts and local caches.\n    "
  | lint | typeCheck => none
  | format => some "\n    Run formatters.\n    "
  | test =>
    some ("\n    Run test suite (using: py.test).\n\n" ++
      "    You should be able to run pytest directly but this provides some useful\n" ++
      "    shortcuts and defaults.\n    ")
  | updateVersion => some "\n    Update version and create relevant git tag.\n    "

/-- A name as it is looked up: a hyphen and an underscore are the same. -/
def lookupName (name : String) : String := name.map fun c => if c = '_' then '-' else c

/-- The task of a name. -/
def named? (name : String) : Option Task :=
  all.find? fun t => (t.name :: t.aliases).contains (lookupName name)

end Task

end DirectiveSchema.Release

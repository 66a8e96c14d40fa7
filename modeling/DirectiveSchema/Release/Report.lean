import DirectiveSchema.Release.Invocation
import DirectiveSchema.Release.Package

/-!
Reports on release work: the tasks there are, what came of a task, and the package as it is handed
to the tool that builds distributions.
-/
namespace DirectiveSchema.Release.Report

def textList (texts : List String) : Answer := .list (texts.map .text)

def textDict (entries : List (String × Answer)) : Answer :=
  .dict (entries.map fun e => (.text e.1, e.2))

def ofTask (t : Task) : Answer :=
  .fields [("name", .text t.name), ("aliases", textList t.aliases),
    ("pre", textList (t.before.map Task.name)), ("iterable", textList t.listParameters),
    ("doc", match t.summary? with
      | some s => .text s
      | none => .null)]

def optionKey : CommandOption → String
  | .echo => "echo"
  | .terminal => "pty"
  | .hidden => "hide"

def ofCommand (c : Command) : Answer :=
  .list [.text c.text, .fields (c.options.map fun o => (optionKey o, .bool true))]

def ofRun (outcome : Outcome) (b : Bench) : Answer :=
  .fields [("result", .guarded outcome), ("runs", .list (b.issued.map ofCommand)),
    ("files", .fields (b.workspace.files.map fun f => (f.1, .text f.2)))]

/-- What can be read from files, or the failure that ended the reading. -/
def ofReading {α : Type} (shown : α → Answer) : Except Failure α → Answer
  | .ok a => .guarded (.ok (shown a))
  | .error f => .guarded (Invocation.failed f)

def ofPackage (p : Package) : Answer :=
  textDict [
    ("name", .text "gql_directives"),
    ("version", .text p.version),
    ("description", .text "GraphQL directive definitions and built-in directives."),
    ("long_description", .text p.readme),
    ("long_description_content_type", .text "text/markdown"),
    ("license", .text "MIT"),
    ("keywords", .text "graphql directives schema"),
    ("zip_safe", .bool false),
    ("packages", textList p.modules),
    ("package_dir", textDict [("", .text "src")]),
    ("install_requires", textList p.needed),
    ("tests_require", textList p.neededForTests),
    ("extras_require", textDict [("dev", textList p.neededForDevelopment)]),
    ("include_package_data", .bool true),
    ("python_requires", .text ">=3.6"),
    ("classifiers", textList Package.classifiers)]

end DirectiveSchema.Release.Report

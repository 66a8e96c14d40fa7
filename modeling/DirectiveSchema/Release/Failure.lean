import DirectiveSchema.Fault.Kind
import DirectiveSchema.Text.Quoted

/-!
Failures of release work by cause: a refused version, a missing file, a command that fails.
-/
namespace DirectiveSchema.Release

/-- The pattern that versions match, as it is shown in messages. -/
def versionPattern : String := "^\\d+\\.\\d+\\.\\d+(?:\\.(dev|a|b|rc)\\d+)?$"

inductive Failure where
  | missingFile (path : String)
  | folder (path : String)
  | unknownTask (name : String)
  | command (text : String)
  | badVersionFormat
  | notLater (current : String)
  | otherChanges
  /-- The version file declares no version. -/
  | undeclaredVersion
  /-- The declared version is a number, which has no order with texts. -/
  | incomparableVersion
  /-- The declared version is a number, which occurs in no text. -/
  | irreplaceableVersion
  /-- No line of the version file starts with the name of the version. -/
  | noVersionLine
  /-- The line with the version holds no quote. -/
  | unquotedVersion
deriving DecidableEq, Inhabited

namespace Failure

def kind : Failure → FaultKind
  | missingFile _ => .missingFile
  | folder _ => .folder
  | unknownTask _ | undeclaredVersion => .key
  | command _ => .command
  | badVersionFormat | notLater _ | otherChanges => .exit
  | incomparableVersion | irreplaceableVersion => .type
  | noVersionLine => .runtime
  | unquotedVersion => .index

def message : Failure → String
  | missingFile path => "[Errno 2] No such file or directory: " ++ Text.quoted path
  | folder path => "[Errno 21] Is a directory: " ++ Text.quoted path
  | unknownTask name => Text.quoted name
  | command text => text
  | badVersionFormat => "Invalid version format, must match /" ++ versionPattern ++ "/."
  | notLater current => "Must increment the version (current " ++ current ++ ")."
  | otherChanges =>
    "There are still modified files in your directory. Commit or stash them."
  | undeclaredVersion => "'__version__'"
  | incomparableVersion => "'>=' not supported between instances of 'int' and 'str'"
  | irreplaceableVersion => "replace() argument 1 must be str, not int"
  | noVersionLine => "Unable to find version string."
  | unquotedVersion => "list index out of range"

end Failure

end DirectiveSchema.Release

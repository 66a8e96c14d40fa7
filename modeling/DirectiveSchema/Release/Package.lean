import DirectiveSchema.Release.VersionFile

/-!
The package that a project is distributed as: its version, its long description, the folders with
code and the packages that it needs, all read from the files of the project. The first file that is
missing ends the reading.
-/
namespace DirectiveSchema.Release

structure Package where
  version : String
  readme : String
  /-- The folders with code, in dotted form and sorted. -/
  modules : List String
  needed : List String
  neededForTests : List String
  neededForDevelopment : List String
deriving DecidableEq, Inhabited

namespace Package

/-- Whether a line names a package: it is no comment, no option and not empty. -/
def isRequirement (line : String) : Bool :=
  match line.toList with
  | [] => false
  | c :: _ => c != '#' && c != '-'

/-- The packages that a file names, one on each line. -/
def requirements (text : List Char) : List String :=
  ((Text.lines text).map fun l => Text.strip (String.ofList l)).filter isRequirement

/-- Reads a file in the folder of the project. -/
def readIn (folder : String) (w : Workspace) (path : String) : Except Failure (List Char) :=
  w.read path (folder ++ "/" ++ path)

/-- The packages that some files name, file by file. -/
def requirementsIn (folder : String) (w : Workspace) (paths : List String) :
    Except Failure (List String) := do
  return (← paths.mapM fun p => return requirements (← readIn folder w p)).flatten

/-- The version that the version file writes. -/
def writtenVersion (folder : String) (w : Workspace) : Except Failure String := do
  VersionFile.written (← readIn folder w VersionFile.path)

/-- The path of the file that makes a folder of sources a folder with code. -/
def markerPath (folders : List String) : String :=
  "/".intercalate ("src" :: (folders ++ ["__init__.py"]))

/-- The folders from the sources down to a folder with a marker file, given that file. -/
def foldersOf? (path : String) : Option (List String) :=
  match (path.toList.splitOn '/').map String.ofList with
  | "src" :: rest =>
    if rest.getLast? = some "__init__.py" ∧ 2 ≤ rest.length then some rest.dropLast else none
  | _ => none

/-- Whether a folder holds code: it and all folders above it are marked and have plain names. -/
def isCodeFolder (w : Workspace) (folders : List String) : Bool :=
  (folders.all fun f => !f.toList.contains '.') &&
    (List.range folders.length).all fun i =>
      (w.text? (markerPath (folders.take (i + 1)))).isSome

/-- The folders with code. -/
def codeFolders (w : Workspace) : List String :=
  (((w.files.filterMap fun f => foldersOf? f.1).filter (isCodeFolder w)).map fun folders =>
    ".".intercalate folders).mergeSort fun a b => decide (a ≤ b)

/-- Reads the package from the files of the project. -/
def read (folder : String) (w : Workspace) : Except Failure Package := do
  let readme ← readIn folder w "README.md"
  let version ← writtenVersion folder w
  let needed ← requirementsIn folder w ["requirements.txt"]
  let neededForTests ← requirementsIn folder w ["requirements-tests.txt"]
  let neededForDevelopment ← requirementsIn folder w ["requirements-dev.txt",
    "requirements-tests.txt", "requirements-lint.txt", "requirements-mypy.txt"]
  return {
    version
    readme := "\n" ++ String.ofList readme
    modules := codeFolders w
    needed
    neededForTests
    neededForDevelopment }

/-- The classes under which the package is listed. -/
def classifiers : List String := [
  "License :: OSI Approved :: MIT License",
  "Natural Language :: English",
  "Programming Language :: Python",
  "Programming Language :: Python :: Implementation :: CPython",
  "Programming Language :: Python :: Implementation :: PyPy",
  "Programming Language :: Python :: 3 :: Only",
  "Programming Language :: Python :: 3",
  "Programming Language :: Python :: 3.6",
  "Programming Language :: Python :: 3.7",
  "Programming Language :: Python :: 3.8",
  "Programming Language :: Python :: 3.9",
  "Operating System :: POSIX",
  "Operating System :: MacOS :: MacOS X",
  "Development Status :: 3 - Alpha",
  "Intended Audience :: Developers",
  "Topic :: Software Development :: Libraries",
  "Topic :: Software Development :: Libraries :: Python Modules"]

end Package

end DirectiveSchema.Release

import DirectiveSchema.Release.Failure
import DirectiveSchema.Text.Line

/-!
A workspace: the text files of a project by their paths, in which the parts of a path are set apart
by slashes. Files are read with unified line ends and written as they are given.
-/
namespace DirectiveSchema.Release

structure Workspace where
  files : List (String × String)
deriving DecidableEq, Inhabited

namespace Workspace

def text? (w : Workspace) (path : String) : Option String := w.files.lookup path

/-- Whether a path leads to files and is none itself. -/
def isFolder (w : Workspace) (path : String) : Bool :=
  path = "" || w.files.any fun f => (path.toList ++ ['/']).isPrefixOf f.1.toList

/-- Reads a file; a failure shows its path as given. -/
def read (w : Workspace) (path shown : String) : Except Failure (List Char) :=
  match w.text? path with
  | some text => .ok (Text.unifyLineEnds text.toList)
  | none => .error (if w.isFolder path then .folder shown else .missingFile shown)

/-- Replaces the text at a path where there is one. -/
def putFiles (path text : String) : List (String × String) → List (String × String)
  | [] => [(path, text)]
  | f :: fs => if path = f.1 then (path, text) :: fs else f :: putFiles path text fs

/-- Writes a file. -/
def write (w : Workspace) (path text : String) : Workspace := ⟨putFiles path text w.files⟩

theorem lookup_putFiles_self (path text : String) (fs : List (String × String)) :
    (putFiles path text fs).lookup path = some text := by
  induction fs with
  | nil => simp [putFiles]
  | cons f fs ih =>
    obtain ⟨p, t⟩ := f
    by_cases h : path = p
    · simp [putFiles, h]
    · simp [putFiles, h, List.lookup_cons, ih, beq_eq_false_iff_ne.2 h]

theorem lookup_putFiles_of_ne {path other : String} (text : String) (h : other ≠ path)
    (fs : List (String × String)) : (putFiles path text fs).lookup other = fs.lookup other := by
  induction fs with
  | nil => simp [putFiles, h]
  | cons f fs ih =>
    obtain ⟨p, t⟩ := f
    by_cases hp : path = p
    · subst hp
      simp [putFiles, List.lookup_cons, beq_eq_false_iff_ne.2 h]
    · simp [putFiles, hp, List.lookup_cons, ih]

theorem text?_write_self (w : Workspace) (path text : String) :
    (w.write path text).text? path = some text :=
  lookup_putFiles_self path text w.files

theorem text?_write_of_ne (w : Workspace) {path other : String} (text : String)
    (h : other ≠ path) : (w.write path text).text? other = w.text? other :=
  lookup_putFiles_of_ne text h w.files

end Workspace

end DirectiveSchema.Release

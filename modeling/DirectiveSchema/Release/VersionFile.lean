import DirectiveSchema.Release.Workspace
import DirectiveSchema.Text.Blank
import DirectiveSchema.Text.Replacement

/-!
The version file: comments, texts that stand alone, and assignments of literals to names. It is read
in two ways. The declared version is the last literal assigned to the name of the version; the
written version is what stands between the first two quotes of the first line that starts with that
name.
-/
namespace DirectiveSchema.Release

inductive Literal where
  | text (s : String)
  | number (digits : String)
deriving DecidableEq, Inhabited

namespace VersionFile

/-- The file within the project. -/
def path : String := "src/gql_directives/version.py"

def versionName : String := "__version__"

/-- What a file consists of, blanks and comments left out. -/
inductive Token where
  | name (s : String)
  | literal (l : Literal)
  | mark (c : Char)
deriving DecidableEq, Inhabited

/-- What a scanner stands in. -/
inductive Scan where
  /-- Between texts, after the letters of an unfinished word. -/
  | plain (word : List Char)
  | comment
  /-- Within a text on one line. -/
  | short (quote : Char) (content : List Char)
  /-- After two quotes: an empty text, or the start of a long one. -/
  | empty (quote : Char)
  /-- Within a text between triple quotes, after some quotes. -/
  | long (quote : Char) (content : List Char) (quotes : Nat)
deriving DecidableEq, Inhabited

def isWordChar (c : Char) : Bool := c.isAlphanum || c = '_' || 0x80 ≤ c.toNat

def textToken (content : List Char) : Token := .literal (.text (String.ofList content))

/-- The token of a finished word: a number if it starts with a digit. -/
def wordTokens : List Char → List Token
  | [] => []
  | c :: cs =>
    let word := String.ofList (c :: cs)
    [if c.isDigit then .literal (.number word) else .name word]

namespace Scan

/-- One character between texts. -/
def plainStep (word : List Char) (c : Char) : List Token × Scan :=
  if isWordChar c then ([], plain (word ++ [c]))
  else if c = '#' then (wordTokens word, comment)
  else if c = '"' || c = '\x27' then (wordTokens word, short c [])
  else if Text.isBlank c then (wordTokens word, plain [])
  else (wordTokens word ++ [.mark c], plain [])

/-- What one character completes, and where it leads. A text on one line that is not closed on it
is dropped. -/
def step : Scan → Char → List Token × Scan
  | plain word, c => plainStep word c
  | comment, c => ([], if c = '\n' then plain [] else comment)
  | short quote content, c =>
    if c = quote then
      if content.isEmpty then ([], empty quote) else ([textToken content], plain [])
    else if c = '\n' then ([], plain [])
    else ([], short quote (content ++ [c]))
  | empty quote, c =>
    if c = quote then ([], long quote [] 0)
    else (textToken [] :: (plainStep [] c).1, (plainStep [] c).2)
  | long quote content quotes, c =>
    if c = quote then
      if quotes = 2 then ([textToken content], plain []) else ([], long quote content (quotes + 1))
    else ([], long quote (content ++ List.replicate quotes quote ++ [c]) 0)

/-- What the end of the file completes. -/
def finish : Scan → List Token
  | plain word => wordTokens word
  | empty _ => [textToken []]
  | _ => []

/-- The tokens that a scanner finds from where it stands. -/
def tokens : Scan → List Char → List Token
  | s, [] => s.finish
  | s, c :: cs => (s.step c).1 ++ (s.step c).2.tokens cs

/-- Where a scanner stands after some characters. -/
def after : Scan → List Char → Scan
  | s, [] => s
  | s, c :: cs => (s.step c).2.after cs

/-- What a scanner finds in some characters when others follow. -/
def found : Scan → List Char → List Token
  | _, [] => []
  | s, c :: cs => (s.step c).1 ++ (s.step c).2.found cs

theorem tokens_append (s : Scan) (cs ds : List Char) :
    s.tokens (cs ++ ds) = s.found cs ++ (s.after cs).tokens ds := by
  induction cs generalizing s with
  | nil => rfl
  | cons c cs ih => simp [tokens, found, after, ih]

end Scan

/-- The literals that are assigned to names, in their order. -/
def assignments : List Token → List (String × Literal)
  | [] => []
  | .name x :: .mark '=' :: .literal l :: ts => (x, l) :: assignments ts
  | .name x :: .mark '=' :: .mark '-' :: .literal (.number n) :: ts =>
    (x, .number ("-" ++ n)) :: assignments ts
  | _ :: ts => assignments ts

/-- The literal that a file assigns to the version last. -/
def declared? (text : List Char) : Option Literal :=
  (assignments ((Scan.plain []).tokens text)).reverse.lookup versionName

/-- The part of a line between its first two quotes; a double quote goes before an apostrophe. -/
def quotedPart? (line : List Char) : Option (List Char) :=
  (line.splitOn (if line.contains '"' then '"' else '\x27'))[1]?

/-- The version that a file writes in the first line that starts with the name of the version. -/
def written (text : List Char) : Except Failure String :=
  match (Text.lines text).find? versionName.toList.isPrefixOf with
  | none => .error .noVersionLine
  | some line =>
    match quotedPart? line with
    | none => .error .unquotedVersion
    | some part => .ok (String.ofList part)

/-- The version file of the library with the given version. -/
def template (version : String) : String :=
  "# -*- coding: utf-8 -*-\n\"\"\"\nPackage information.\n\"\"\"\n\n" ++
    "__title__ = \"gql_directives\"\n" ++
    "__description__ = \"GraphQL directive definitions and built-in directives.\"\n" ++
    "__version__ = \"" ++ version ++ "\"\n__license__ = \"MIT\"\n"

end VersionFile

end DirectiveSchema.Release

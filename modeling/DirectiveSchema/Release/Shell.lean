import DirectiveSchema.Release.Workspace
import DirectiveSchema.Text.Replacement

/-!
Release work: it edits files and issues commands to a shell, whose answers are given in advance. A
command that fails ends the work, and stays among the commands that were issued.
-/
namespace DirectiveSchema.Release

inductive CommandOption where
  /-- The command is shown before it runs. -/
  | echo
  /-- The command runs in a terminal. -/
  | terminal
  /-- The output of the command is not shown. -/
  | hidden
deriving DecidableEq, Inhabited

structure Command where
  text : String
  options : List CommandOption
deriving DecidableEq, Inhabited

/-- What a shell does with commands, and the folder of the project. -/
structure Shell where
  root : String
  fails : String → Bool
  output : String → String

/-- The files as they stand and the commands that were issued. -/
structure Bench where
  workspace : Workspace
  issued : List Command
deriving DecidableEq, Inhabited

abbrev Work := EStateM Failure Bench

namespace Work

/-- Ends the work under a condition. -/
def refuseIf (condition : Bool) (f : Failure) : Work Unit :=
  if condition then throw f else pure ()

end Work

namespace Shell

def contains (command part : String) : Bool := Text.occursIn part.toList command.toList

/-- A shell in which the commands that contain one of some texts fail, and the output of a command
goes by the first text that it contains. -/
def scripted (root : String) (failing : List String) (outputs : List (String × String)) :
    Shell where
  root := root
  fails command := failing.any (contains command)
  output command :=
    match outputs.find? fun o => contains command o.1 with
    | some o => o.2
    | none => ""

/-- Issues a command in the current folder. -/
def issue (shell : Shell) (text : String) (options : List CommandOption) : Work String := do
  modify fun b => { b with issued := b.issued ++ [⟨text, options⟩] }
  if shell.fails text then throw (.command text)
  return shell.output text

/-- The command that a text stands for in the folder of the project. -/
def rooted (shell : Shell) (text : String) : String := "cd " ++ shell.root ++ " && " ++ text

/-- Issues a command in the folder of the project. -/
def issueAtRoot (shell : Shell) (text : String) (options : List CommandOption) : Work String :=
  shell.issue (shell.rooted text) options

/-- Issues commands in the folder of the project, one after the other. -/
def issueAllAtRoot (shell : Shell) (options : List CommandOption) : List String → Work Unit
  | [] => pure ()
  | text :: texts => do
    let _ ← shell.issueAtRoot text options
    shell.issueAllAtRoot options texts

end Shell

end DirectiveSchema.Release

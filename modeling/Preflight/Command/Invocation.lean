import Preflight.Command.Words
import Preflight.Text.Ascii
import Preflight.Text.Substring

/-!
# Invocations

What a command runs. Two shapes name a script that can be checked: a known
interpreter followed by flags and a path, and a first word that is recognisably
a script. For any other command there is a reason why its script is unknown.
Assignments of variables before the program do not count.
-/

set_option autoImplicit false

namespace Preflight.Command

open Preflight.Text

/-- Why the script of a command is unknown. -/
inductive Obscurity where
  | emptyCommand
  | unbalancedQuotes
  | onlyAssignments
  /-- A flag that makes the interpreter run its argument as code. -/
  | inlineCode (interpreter flag : String)
  | noScript (interpreter : String)
  | unknownProgram (program : String)
deriving Repr, DecidableEq

/-- The reason in words. -/
def Obscurity.message : Obscurity → String
  | .emptyCommand => "command is empty"
  | .unbalancedQuotes => "unbalanced quotes"
  | .onlyAssignments => "command only sets variables"
  | .inlineCode interpreter flag => s!"{interpreter} runs inline code ({flag})"
  | .noScript interpreter => s!"no script given to {interpreter}"
  | .unknownProgram program => s!"'{program}' is neither a known interpreter nor a script path"

/-- What a command runs. -/
inductive Invocation where
  | interpreted (interpreter path : String) (args : List String)
  | script (path : String)
  | obscure (reason : Obscurity)
deriving Repr, DecidableEq

def Invocation.scriptPath? : Invocation → Option String
  | .interpreted _ path _ => some path
  | .script path => some path
  | .obscure _ => none

def scriptEndings : List String :=
  [".sh", ".bash", ".zsh", ".py", ".js", ".mjs", ".cjs", ".ts", ".ps1", ".rb", ".pl", ".cmd", ".bat"]

/-- Flags of interpreters whose argument is code and not a file. -/
def inlineCodeFlags : List String :=
  ["-c", "-e", "-m", "-p", "--eval", "--print", "-Command"]

def isPathSeparator (c : Char) : Bool :=
  c == '/' || c == '\\'

/-- Whether a word sets a variable: an identifier followed by an equals sign. -/
def isAssignment (word : List Char) : Bool :=
  match identifier? word with
  | some (_, '=' :: _) => true
  | _ => false

/-- The name by which a program is known: the last part of its path in small letters, without `.exe`. -/
def programName (program : List Char) : List Char :=
  let base := lowerAscii ((program.splitOnP isPathSeparator).getLast?.getD [])
  (dropEnd? ".exe".toList base).getD base

/-- Whether a word is recognisably a script: it has a separator, starts like a placeholder or ends like a script file. -/
def looksLikeScript (word : List Char) : Bool :=
  word.any isPathSeparator || word.head?.any (fun c => c == '~' || c == '$' || c == '%') ||
    scriptEndings.any fun ending => ending.toList.isSuffixOf (lowerAscii word)

/-- The interpreters that take `run` before the script. -/
def takesRun (name : List Char) : Bool :=
  name == "deno".toList || name == "bun".toList

/-- Whether a word is a flag that is followed by code. -/
def isInlineCodeFlag (word : List Char) : Bool :=
  inlineCodeFlags.any fun flag => equalsIgnoringCase flag.toList word

/-- What an interpreter runs, given the words after its flags have not been looked at yet. -/
def afterInterpreter (name : List Char) : List (List Char) → Invocation
  | [] => .obscure (.noScript (String.ofList name))
  | word :: rest =>
    if word.head? = some '-' then
      if isInlineCodeFlag word then .obscure (.inlineCode (String.ofList name) (String.ofList word))
      else afterInterpreter name rest
    else .interpreted (String.ofList name) (String.ofList word) (rest.map String.ofList)

/-- The words after an interpreter without the `run` that some take. -/
def skipRun (name : List Char) : List (List Char) → List (List Char)
  | [] => []
  | word :: rest => if takesRun name && word == "run".toList then rest else word :: rest

/-- What a list of words runs. -/
def ofWords (interpreters : List String) (words : List (List Char)) : Invocation :=
  match words.dropWhile isAssignment with
  | [] => .obscure .onlyAssignments
  | program :: rest =>
    let name := programName program
    if interpreters.any fun i => equalsIgnoringCase i.toList name then
      afterInterpreter name (skipRun name rest)
    else if looksLikeScript program then .script (String.ofList program)
    else .obscure (.unknownProgram (String.ofList program))

/-- What a command runs, given the interpreters that are known. -/
def Invocation.ofCommand (command : String) (interpreters : List String) : Invocation :=
  if (trim command.toList).isEmpty then .obscure .emptyCommand
  else
    match words? command.toList with
    | none => .obscure .unbalancedQuotes
    | some words => ofWords interpreters words

end Preflight.Command

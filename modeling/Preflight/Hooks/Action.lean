import Preflight.Command.Invocation
import Preflight.Diagnostic.Outcome
import Preflight.FileTree.Lookup
import Preflight.Hooks.Timeout
import Preflight.Path.Resolver

/-!
# Actions of hooks

An action has a type, a command and a timeout. Each is looked at on its own. A
command is fine if the script that it names is a file; if it names none, there is
only a warning that nothing could be verified.
-/

set_option autoImplicit false

namespace Preflight.Hooks

open Preflight.Command
open Preflight.Json (Value)

/-- What hooks are checked against: the rules, the way to resolve paths, and the files. -/
structure Checker where
  rules : HookRules
  resolver : Resolver
  files : FileTree

namespace Checker

/-- What there is to say about the type of an action. -/
def typeIssue? (c : Checker) (type : Option Value) (action : Location) : Option Diagnostic :=
  let location := action.atField "type"
  match type with
  | none => some (.error .schema "action is missing 'type'" location)
  | some (.string type) =>
    if c.rules.isActionType type then none
    else
      let known := ", ".intercalate c.rules.actionTypes
      some (.error .schema s!"unsupported action type '{type}': expected one of {known}" location)
  | some other =>
    some (.error .schema s!"action type must be a string, found {other.typeName}" location)

/-- A script must be a file. -/
def scriptIssue? (c : Checker) (script : String) (location : Location) : Option Diagnostic :=
  let path := c.resolver.resolve script
  if c.files.isFile path then none
  else some (.error .referential s!"script file not found: {path.text}" (location.onPath path))

/-- What there is to say about a text that is a command. -/
def shellIssue? (c : Checker) (command : String) (location : Location) : Option Diagnostic :=
  match Invocation.ofCommand command c.rules.interpreters with
  | .obscure reason =>
    some (.warning .syntactic s!"script path not verified: {reason.message}" location)
  | .interpreted _ script _ => c.scriptIssue? script location
  | .script script => c.scriptIssue? script location

/-- What there is to say about the command of an action. -/
def commandIssue? (c : Checker) (command : Option Value) (action : Location) : Option Diagnostic :=
  let location := action.atField "command"
  match command with
  | none => some (.error .schema "action is missing 'command'" location)
  | some (.string command) => c.shellIssue? command location
  | some other =>
    some (.error .schema s!"command must be a string, found {other.typeName}" location)

/-- What there is to say about an action. -/
def checkAction (c : Checker) (lifecycle : String) (location : Location) (action : Value) :
    Outcome :=
  match action.members? with
  | none =>
    .single (.error .structural s!"action must be an object, found {action.typeName}" location)
  | some members =>
    ⟨(c.typeIssue? (members.find? "type") location).toList ++
      (c.commandIssue? (members.find? "command") location).toList ++
      (timeoutIssue? c.rules lifecycle (members.find? "timeout") location).toList⟩

end Checker

end Preflight.Hooks

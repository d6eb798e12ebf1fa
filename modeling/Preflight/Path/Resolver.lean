import Preflight.Path.Basic
import Preflight.Path.Placeholder
import Preflight.Table

/-!
# Resolving paths of scripts

A path in a hook command passes through five steps before it is looked up: a leading `~`
becomes the home directory, placeholders become the values of their variables,
both styles of separators become one, a relative path starts at the project, and
the result is cleaned.
-/

set_option autoImplicit false

namespace Preflight

open Preflight.Text

/-- What a path is resolved against: the project, the home directory and the variables. -/
structure Resolver where
  base : Path
  home? : Option Path
  vars : Table String
deriving Repr, DecidableEq

namespace Resolver

/-- The variable that holds the root of the project. -/
def projectVariable : String := "CLAUDE_PROJECT_DIR"

/-- A resolver for a project, without a home directory and without variables. -/
def ofBase (base : Path) : Resolver :=
  ⟨base, none, .empty⟩

/-- A resolver for a project with the variables of an environment, which name the project unless they do so already. -/
def ofVariables (base : Path) (vars : Table String) : Resolver :=
  let vars :=
    if vars.contains projectVariable then vars
    else vars.insert projectVariable base.text
  ⟨base, none, vars⟩

def withHome (r : Resolver) (home : Path) : Resolver :=
  { r with home? := some home }

def withVariable (r : Resolver) (name value : String) : Resolver :=
  { r with vars := r.vars.insert name value }

/-- The text with a leading `~` replaced by the home directory, if there is one. -/
def expandHome (r : Resolver) (text : String) : String :=
  match r.home? with
  | none => text
  | some home =>
    match text.toList with
    | ['~'] => home.text
    | '~' :: c :: rest =>
      if c = '/' ∨ c = '\\' then home.text ++ "/" ++ String.ofList rest else text
    | _ => text

/-- The value of a variable: of the one with exactly that name, or of the first whose name differs only in case. -/
def lookup (r : Resolver) (name : String) : Option String :=
  match r.vars.find? name with
  | some value => some value
  | none =>
    (r.vars.entries.find? fun e => equalsIgnoringCase e.1.toList name.toList).map Prod.snd

/-- The text with its placeholders replaced by the values of their variables. -/
def expandVariables (r : Resolver) (text : String) : String :=
  String.ofList (Placeholder.expand
    (fun name => (r.lookup (String.ofList name)).map String.toList) text.toList)

/-- The path that a text from a command means. -/
def resolve (r : Resolver) (text : String) : Path :=
  let path : Path := ⟨normalizeSeparators (r.expandVariables (r.expandHome text))⟩
  (r.base.join path).clean

end Resolver

end Preflight

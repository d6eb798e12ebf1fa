import Preflight.Text.Lines
import Preflight.Toml.Reader

/-!
# TOML documents

A document is a sequence of statements: headers, which open a table, and bindings
of keys in the table that is open. Before the first header it is the root. No
name may be defined twice.
-/

set_option autoImplicit false

namespace Preflight.Toml

/-- A line of a document, or several lines if a value goes over them. -/
inductive Statement where
  /-- Blanks and a comment. -/
  | blank
  /-- The header of a table. -/
  | table (key : Key)
  /-- The header of one of several tables. -/
  | item (key : Key)
  | binding (key : Key) (value : Value)
deriving Repr

/-- A statement and what follows its line. -/
def statement? (s : List Char) : Option (Statement × List Char) :=
  match endLine? s with
  | some rest => some (.blank, rest)
  | none =>
    match skipBlanks s with
    | '[' :: '[' :: rest =>
      match key? rest with
      | some (key, ']' :: ']' :: rest) => (endLine? rest).map (.item key, ·)
      | _ => none
    | '[' :: rest =>
      match key? rest with
      | some (key, ']' :: rest) => (endLine? rest).map (.table key, ·)
      | _ => none
    | s =>
      match key? s with
      | some (key, '=' :: rest) =>
        match value? (2 * s.length + 2) maxDepth (skipBlanks rest) with
        | some (v, rest) => (endLine? rest).map (.binding key v, ·)
        | none => none
      | _ => none

/-- The root of a document in the making and the names that lead to the table that is open. -/
structure Scan where
  root : Draft.Entries
  current : List String
deriving Repr

namespace Scan

/-- Before the first statement. -/
def start : Scan := ⟨[], []⟩

/-- The state after a change below the table to which names lead. -/
def change (scan : Scan) (path : List String) (c : Draft.Change) (current : List String) :
    Option Scan :=
  (Draft.within false c path .header scan.root).map fun (_, root) => ⟨root, current⟩

/-- The state after one more statement; none if it defines a name twice. -/
def step? (scan : Scan) : Statement → Option Scan
  | .blank => some scan
  | .table key => scan.change key.path (Draft.openTable key.name) (key.path ++ [key.name])
  | .item key => scan.change key.path (Draft.openItem key.name) (key.path ++ [key.name])
  | .binding key v => scan.change scan.current (Draft.bindKey key.path key.name v) scan.current

end Scan

/-- Why a text is no document. -/
inductive Cause where
  | malformed
  | definedTwice
deriving Repr, DecidableEq

def Cause.message : Cause → String
  | .malformed => "malformed statement"
  | .definedTwice => "name defined twice"

/-- A cause and the part of the text that starts with the statement for which it arose. -/
structure Failure where
  cause : Cause
  rest : List Char
deriving Repr, DecidableEq

/-- The cause and the line, counted from one, in which the statement starts. -/
def Failure.describe (failure : Failure) (text : List Char) : String :=
  let line := (text.take (text.length - failure.rest.length)).count '\n' + 1
  s!"{failure.cause.message} at line {line}"

/-- Read statement after statement; `fuel` bounds their number. -/
def readStatements : (fuel : Nat) → Scan → List Char → Except Failure Scan
  | _, scan, [] => .ok scan
  | 0, _, s => .error ⟨.malformed, s⟩
  | fuel + 1, scan, s =>
    match statement? s with
    | none => .error ⟨.malformed, s⟩
    | some (statement, rest) =>
      match scan.step? statement with
      | none => .error ⟨.definedTwice, s⟩
      | some scan => readStatements fuel scan rest

/-- The entries of the root table of a document. -/
def readDocument (text : String) : Except Failure (List (String × Value)) :=
  let s := Text.dropMark text.toList
  (readStatements (s.length + 1) .start s).map fun scan => Draft.toEntries scan.root

end Preflight.Toml

import Preflight.Header.Field
import Preflight.Header.Line
import Preflight.Text.Lines

/-!
# Documents with a header

A document is a header between two delimiter lines, followed by a body. The
header is read line by line: a key line binds its key, and while it is the last
key line the lines after it may extend its list or its text. Of two key lines for
one key the later counts. Lines without a meaning where they stand are skipped;
the only errors are a header that is not opened or not closed.
-/

set_option autoImplicit false

namespace Preflight.Header

open Preflight.Text

/-- Why a text has no header. -/
inductive HeaderError where
  /-- The first line is not the delimiter. -/
  | missingOpening
  /-- No later line is the delimiter. -/
  | unterminated
deriving Repr, DecidableEq

def HeaderError.message : HeaderError → String
  | .missingOpening => "missing header: first line must be '---'"
  | .unterminated => "unterminated header: no closing '---' line"

/-- A document: the fields of its header and its body. -/
structure Document where
  header : Descriptor
  body : String
deriving Repr, DecidableEq

/-- What the next line may extend. -/
inductive Open where
  /-- Nothing. -/
  | nothing
  /-- The list of a key, with its items so far. -/
  | list (name : List Char) (items : List (List Char))
  /-- The text of a key, as far as it was read. -/
  | text (name : List Char) (text : List Char)
deriving Repr, DecidableEq

/-- The state of reading a header: the fields so far and what may be extended. -/
structure Scan where
  fields : Descriptor
  current : Open
deriving Repr, DecidableEq

namespace Scan

/-- Before the first line. -/
def start : Scan :=
  ⟨.empty, .nothing⟩

def bindList (s : Scan) (name : List Char) (items : List (List Char)) : Descriptor :=
  s.fields.insert (String.ofList name) (.list (items.map String.ofList))

def bindScalar (s : Scan) (name text : List Char) : Descriptor :=
  s.fields.insert (String.ofList name) (.scalar (String.ofList text))

/-- A key line binds its key; a list or a text that follows on other lines starts out empty. -/
def bindKey (s : Scan) (name value : List Char) : Scan :=
  match ValueShape.classify value with
  | .inlineList items => ⟨s.bindList name items, .nothing⟩
  | .blockList => ⟨s.bindList name [], .list name []⟩
  | .blockText => ⟨s.bindScalar name [], .text name []⟩
  | .scalar text => ⟨s.bindScalar name text, .nothing⟩

/-- Text extended by one more line: a space stands between two lines. -/
def extend (text line : List Char) : List Char :=
  if text.isEmpty then line else text ++ ' ' :: line

/-- The state after one more line. -/
def step (s : Scan) : Line → Scan
  | .key name value => s.bindKey name value
  | .item text =>
    match s.current with
    | .list name items =>
      let item := unquote text
      if item.isEmpty then s
      else ⟨s.bindList name (items ++ [item]), .list name (items ++ [item])⟩
    | _ => { s with current := .nothing }
  | .indented line =>
    match s.current with
    | .text name text => ⟨s.bindScalar name (extend text line), .text name (extend text line)⟩
    | _ => { s with current := .nothing }
  | .blank =>
    match s.current with
    | .text _ _ => s
    | _ => { s with current := .nothing }
  | .other => { s with current := .nothing }

end Scan

/-- A line without its line ending: final line feeds and carriage returns are cut off. -/
def withoutEnding (line : List Char) : List Char :=
  dropEndWhile (fun c => c == '\n' || c == '\r') line

/-- Read lines up to the closing delimiter; the lines after it are the body. -/
def readLines (s : Scan) : List (List Char) → Except HeaderError Document
  | [] => .error .unterminated
  | line :: rest =>
    if isDelimiter line then .ok ⟨s.fields, String.ofList rest.flatten⟩
    else readLines (s.step (Line.classify (withoutEnding line))) rest

def Document.ofText (text : String) : Except HeaderError Document :=
  match lines (dropMark text.toList) with
  | [] => .error .missingOpening
  | first :: rest => if isDelimiter first then readLines .start rest else .error .missingOpening

def Descriptor.ofText (text : String) : Except HeaderError Descriptor :=
  (Document.ofText text).map Document.header

end Preflight.Header

import Preflight.Header.InlineList
import Preflight.Text.Ascii

/-!
# Lines of a header

What one line of a header is, on its own: a key with a value, an item of a list,
indented text, a blank line, or something that has no meaning here. The value
after a key is in turn one of four shapes.
-/

set_option autoImplicit false

namespace Preflight.Header

open Preflight.Text

/-- What a line of a header is. -/
inductive Line where
  /-- An unindented key with what stands after its colon. -/
  | key (name value : List Char)
  /-- An item of a list, without its dash. -/
  | item (text : List Char)
  /-- Indented text. -/
  | indented (text : List Char)
  | blank
  | other
deriving Repr, DecidableEq

/-- What the value after a key is. -/
inductive ValueShape where
  /-- A list between brackets. -/
  | inlineList (items : List (List Char))
  /-- Nothing: the items follow on lines of their own. -/
  | blockList
  /-- A marker of a text that follows on indented lines. -/
  | blockText
  | scalar (text : List Char)
deriving Repr, DecidableEq

/-- A character of which keys are made: an ASCII letter or digit, or one of `-`, `_` and `.`. -/
def isKeyChar (c : Char) : Bool :=
  isAsciiLetter c || isAsciiDigit c || c == '-' || c == '_' || c == '.'

/-- A non-empty text of key characters. -/
def isKey (s : List Char) : Bool :=
  !s.isEmpty && s.all isKeyChar

/-- The line that opens and closes a header, whatever blanks follow it. -/
def isDelimiter (line : List Char) : Bool :=
  trimEnd line == ['-', '-', '-']

/-- Whether a text starts with a blank. -/
def isIndented : List Char → Bool
  | c :: _ => isBlank c
  | [] => false

/-- The text after the dash of a list item: a dash alone or a dash before a space. -/
def itemText? : List Char → Option (List Char)
  | ['-'] => some []
  | '-' :: ' ' :: rest => some (trim rest)
  | _ => none

/-- What a line is, given without its line ending. -/
def Line.classify (line : List Char) : Line :=
  let trimmed := trim line
  if trimmed.isEmpty then .blank
  else
    match itemText? trimmed with
    | some text => .item text
    | none =>
      if isIndented line then .indented trimmed
      else if trimmed.head? = some '#' then .other
      else
        match line.dropWhile (· ≠ ':') with
        | [] => .other
        | _ :: value =>
          let name := trimEnd (line.takeWhile (· ≠ ':'))
          if isKey name then .key name (trim value) else .other

/-- The markers of a text on the following lines. -/
def blockMarkers : List (List Char) :=
  [['|'], ['>'], ['|', '-'], ['>', '-'], ['|', '+'], ['>', '+']]

/-- What the value after a key is, given without surrounding blanks. -/
def ValueShape.classify (value : List Char) : ValueShape :=
  if value.isEmpty then .blockList
  else if blockMarkers.contains value then .blockText
  else
    match value with
    | '[' :: rest =>
      if rest.getLast? = some ']' then .inlineList (inlineItems rest.dropLast)
      else .scalar (unquote value)
    | _ => .scalar (unquote value)

end Preflight.Header

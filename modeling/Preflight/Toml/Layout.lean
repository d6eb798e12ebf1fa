/-!
# Blanks, lines and comments of TOML

Blanks are spaces and tabs. A line ends with a line feed, which may have a carriage
return before it, or with the text. A comment goes from a hash sign to the end of
its line and holds no control characters but tabs.
-/

set_option autoImplicit false

namespace Preflight.Toml

/-- A space or a tab. -/
def isBlank (c : Char) : Bool :=
  c == ' ' || c == '\t'

/-- A character that may stand in comments and in strings: no control character but a tab. -/
def isPrintable (c : Char) : Bool :=
  c == '\t' || (0x20 ≤ c.toNat && c.toNat != 0x7F)

/-- The text without leading blanks. -/
def skipBlanks (s : List Char) : List Char :=
  s.dropWhile isBlank

/-- The text after a line ending at its start. -/
def newline? : List Char → Option (List Char)
  | '\n' :: rest => some rest
  | '\r' :: '\n' :: rest => some rest
  | _ => none

/-- The text after the end of a line, at the end of which there may be blanks and a comment. -/
def endLine? (s : List Char) : Option (List Char) :=
  let rest := match skipBlanks s with
    | '#' :: rest => rest.dropWhile isPrintable
    | rest => rest
  if rest.isEmpty then some [] else newline? rest

/-- The text after blanks, line endings and comments; none if a comment or a line ending is malformed.
The first argument tells whether reading starts inside a comment. -/
def skipLines : Bool → List Char → Option (List Char)
  | _, [] => some []
  | _, '\n' :: rest => skipLines false rest
  | _, '\r' :: '\n' :: rest => skipLines false rest
  | true, c :: rest => if isPrintable c then skipLines true rest else none
  | false, '#' :: rest => skipLines true rest
  | false, c :: rest => if isBlank c then skipLines false rest else some (c :: rest)

end Preflight.Toml

import Preflight.Text.Blank
import Preflight.Text.Substring

/-!
# Quoted texts in headers

A value between double quotes has its quotes and backslashes escaped by a
backslash; between single quotes, a single quote is written twice. Anything else
stands for itself. Reading accepts any text: an escape of another character is
kept as it is written.
-/

set_option autoImplicit false

namespace Preflight.Header

open Preflight.Text

/-- What stands between the double quotes of a text: a backslash before each quote and each backslash. -/
def escape (s : List Char) : List Char :=
  s.flatMap fun c => if c = '"' ∨ c = '\\' then ['\\', c] else [c]

/-- A text between double quotes. -/
def quote (s : List Char) : List Char :=
  '"' :: escape s ++ ['"']

/-- The text that is written between a pair of double quotes: first every escaped quote is replaced
by a quote, then every doubled backslash by one. -/
def unescape (s : List Char) : List Char :=
  replaceAll ['\\', '\\'] ['\\'] (replaceAll ['\\', '"'] ['"'] s)

/-- The text that is written between a pair of single quotes. -/
def undouble (s : List Char) : List Char :=
  replaceAll ['\'', '\''] ['\''] s

/-- What stands between a leading and a final `q`, if the text has both. -/
def between? (q : Char) : List Char → Option (List Char)
  | c :: d :: rest =>
    if c = q ∧ (d :: rest).getLast? = some q then some (d :: rest).dropLast else none
  | _ => none

/-- The text that a value denotes: the inside of its quotes, or the value without surrounding blanks. -/
def unquote (s : List Char) : List Char :=
  let s := trim s
  match between? '"' s, between? '\'' s with
  | some inside, _ => unescape inside
  | none, some inside => undouble inside
  | none, none => s

end Preflight.Header

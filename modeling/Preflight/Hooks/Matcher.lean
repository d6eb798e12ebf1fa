import Preflight.Text.Ascii

/-!
# Matchers

A matcher selects operations by name. It is a star, names joined by bars, or one
name with arguments in parentheses; the arguments are any text without
parentheses.
-/

set_option autoImplicit false

namespace Preflight.Hooks

open Preflight.Text

/-- A character of which names go on after the first: an identifier character or a hyphen. -/
def isNamePart (c : Char) : Bool :=
  isIdentifierPart c || c == '-'

/-- Whether a text is a name: it starts like an identifier and goes on with name characters. -/
def isName : List Char → Bool
  | [] => false
  | c :: rest => isIdentifierStart c && rest.all isNamePart

/-- Whether a text ends in a closing parenthesis and has no other parenthesis. -/
def closesArguments (s : List Char) : Bool :=
  s.getLast? == some ')' && s.dropLast.all fun c => c != '(' && c != ')'

/-- Whether a text is a name with arguments in parentheses. -/
def isCall (s : List Char) : Bool :=
  match s.dropWhile isNamePart with
  | '(' :: rest => isName (s.takeWhile isNamePart) && closesArguments rest
  | _ => false

def isMatcher (s : List Char) : Bool :=
  s == ['*'] || (s.splitOn '|').all isName || isCall s

end Preflight.Hooks

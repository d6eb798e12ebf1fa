/-!
# ASCII letters

Names of variables, of programs and of header keys are compared and checked in
ASCII: letters outside it have no case here and belong to no class.
-/

set_option autoImplicit false

namespace Preflight.Text

def isAsciiLetter (c : Char) : Bool :=
  ('a' ≤ c && c ≤ 'z') || ('A' ≤ c && c ≤ 'Z')

def isAsciiDigit (c : Char) : Bool :=
  '0' ≤ c && c ≤ '9'

/-- The letters here are those of core, so lemmas about `Char.isAlpha` apply. -/
theorem isAsciiLetter_eq (c : Char) : isAsciiLetter c = c.isAlpha := by
  have hupper : c.isUpper = (decide ('A' ≤ c) && decide (c ≤ 'Z')) := Bool.decide_and _ _
  have hlower : c.isLower = (decide ('a' ≤ c) && decide (c ≤ 'z')) := rfl
  have halpha : c.isAlpha = (c.isUpper || c.isLower) := rfl
  rw [halpha, hupper, hlower, Bool.or_comm, isAsciiLetter]

/-- The digits here are those of core, so lemmas about `Char.isDigit` apply. -/
theorem isAsciiDigit_eq (c : Char) : isAsciiDigit c = c.isDigit := rfl

/-- An ASCII letter or an underscore: what an identifier starts with. -/
def isIdentifierStart (c : Char) : Bool :=
  isAsciiLetter c || c == '_'

/-- An ASCII letter, a digit or an underscore: what an identifier goes on with. -/
def isIdentifierPart (c : Char) : Bool :=
  isIdentifierStart c || isAsciiDigit c

/-- The text with its ASCII capitals replaced by small letters. -/
def lowerAscii (s : List Char) : List Char :=
  s.map Char.toLower

/-- Equality of two texts up to the case of ASCII letters. -/
def equalsIgnoringCase (s t : List Char) : Bool :=
  lowerAscii s == lowerAscii t

/-- The longest identifier at the start of a text and what follows it, if there is one. -/
def identifier? : List Char → Option (List Char × List Char)
  | [] => none
  | c :: rest =>
    if isIdentifierStart c then
      some (c :: rest.takeWhile isIdentifierPart, rest.dropWhile isIdentifierPart)
    else none

def digitValue (c : Char) : Nat :=
  c.toNat - '0'.toNat

/-- The number that a list of decimal digits denotes, most significant first. -/
def decimalValue (digits : List Char) : Nat :=
  digits.foldl (fun n c => 10 * n + digitValue c) 0

end Preflight.Text

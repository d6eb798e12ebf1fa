import Preflight.Number.Binary64
import Preflight.Text.Ascii
import Preflight.Text.Hex
import Preflight.Toml.DateTime
import Preflight.Toml.Layout
import Preflight.Toml.Value

/-!
# Scalars of TOML that are not strings

Booleans, integers, floats and date-times are written without quotes. Digits may
be grouped by single underscores. An integer can be held if it has up to 128 bits,
a float if it is not beyond the range of doubles. A text that starts like an
integer with grouped digits passes for one, though it cannot be held if anything
but digits follows.
-/

set_option autoImplicit false

namespace Preflight.Toml

open Preflight.Number Preflight.Text

/-- The digits of a number without the underscores between them; none if an underscore does not stand between digits. -/
def digits? (isDigit : Char → Bool) (s : List Char) : Option (List Char) :=
  let groups := s.splitOn '_'
  if groups.all fun group => !group.isEmpty && group.all isDigit then some groups.flatten else none

/-- Whether the sign at the start of a number is a minus, and the number without its sign. -/
def splitSign : List Char → Bool × List Char
  | '-' :: rest => (true, rest)
  | '+' :: rest => (false, rest)
  | rest => (false, rest)

/-! ### Integers -/

/-- The number that digits denote in a base. -/
def valueInBase (base : Nat) (digits : List Char) : Nat :=
  digits.foldl (fun n c => base * n + (hexValue? c).getD 0) 0

/-- The digits of a decimal number; it starts with a zero only if it has no other digit. -/
def decimalDigits? (s : List Char) : Option (List Char) :=
  if s.head? = some '0' ∧ s.length ≠ 1 then none else digits? isAsciiDigit s

/-- A base other than ten, if its mark starts the text, and what follows the mark. -/
def base? : List Char → Option (Nat × List Char)
  | '0' :: 'x' :: rest => some (16, rest)
  | '0' :: 'o' :: rest => some (8, rest)
  | '0' :: 'b' :: rest => some (2, rest)
  | _ => none

def isDigitIn (base : Nat) (c : Char) : Bool :=
  (hexValue? c).any (· < base)

/-- Whether a text is the mark of a base and no more. -/
def isBareBase (s : List Char) : Bool :=
  (base? s).any (·.2.isEmpty)

/-- An integer, in base ten with or without a sign, or after the mark of another base without one. -/
def integer? (s : List Char) : Option Int :=
  match base? s with
  | some (base, rest) => (digits? (isDigitIn base) rest).map fun ds => (valueInBase base ds : Int)
  | none =>
    let (negative, unsigned) := splitSign s
    (decimalDigits? unsigned).map fun ds =>
      if negative then -(decimalValue ds : Int) else decimalValue ds

/-- Whether an integer fits 128 bits, with or without a sign. -/
def fits (n : Int) : Bool :=
  -(twoTo 127 : Int) ≤ n && n < (twoTo 128 : Int)

/-! ### Floats -/

/-- The parts of a float: its digits before and after the point and its exponent. -/
structure FloatParts where
  whole : List Char
  fraction : List Char
  exponent : Int
deriving Repr, DecidableEq

/-- The exponent that is written after the letter of exponents. -/
def exponent? (s : List Char) : Option Int :=
  let (negative, unsigned) := splitSign s
  (digits? isAsciiDigit unsigned).map fun ds =>
    if negative then -(decimalValue ds : Int) else decimalValue ds

def isExponentLetter (c : Char) : Bool :=
  c == 'e' || c == 'E'

/-- The parts of a float without its sign. There is a point with digits on both sides, or an exponent, or both. -/
def floatParts? (s : List Char) : Option FloatParts := do
  let whole ← decimalDigits? (s.takeWhile fun c => c != '.' && !isExponentLetter c)
  match s.dropWhile fun c => c != '.' && !isExponentLetter c with
  | [] => none
  | '.' :: rest =>
    let fraction ← digits? isAsciiDigit (rest.takeWhile (!isExponentLetter ·))
    match rest.dropWhile (!isExponentLetter ·) with
    | [] => return ⟨whole, fraction, 0⟩
    | _ :: rest => return ⟨whole, fraction, ← exponent? rest⟩
  | _ :: rest => return ⟨whole, [], ← exponent? rest⟩

/-- Whether a float lies in the range of doubles. Only numbers near its end need exact arithmetic. -/
def FloatParts.isFinite (f : FloatParts) : Bool :=
  let significand := decimalValue (f.whole ++ f.fraction)
  let exponent := f.exponent - f.fraction.length
  let size : Int := (Nat.toDigits 10 significand).length + exponent
  if significand = 0 ∨ size < 300 then true
  else if 310 < size then false
  else
    (Binary64.ofRatio? false (significand * tenTo exponent.toNat) (tenTo (-exponent).toNat)).isSome

/-- Whether a text is a float, and if so, whether it can be held; infinity and what is not a number can be. -/
def float? (s : List Char) : Option Bool :=
  let unsigned := (splitSign s).2
  if unsigned = "inf".toList ∨ unsigned = "nan".toList then some true
  else (floatParts? unsigned).map FloatParts.isFinite

/-! ### Texts that pass for integers -/

def isHexDigit (c : Char) : Bool :=
  (hexValue? c).isSome

/-- Whether each underscore stands between two hexadecimal digits. -/
def groupsTouch (s : List Char) : Bool :=
  let groups := s.splitOn '_'
  groups.dropLast.all (fun group => group.getLast?.any isHexDigit) &&
    groups.tail.all (fun group => group.head?.any isHexDigit)

/-- Whether a text without its sign passes for an integer: it starts with digits, the first of them no zero,
and an underscore, has no space and nothing that makes a float, and its underscores stand right. -/
def passesForInteger (s : List Char) : Bool :=
  let rest := s.dropWhile isAsciiDigit
  s.head?.any (fun c => isAsciiDigit c && c != '0') && rest.head? == some '_' &&
    !rest.any (fun c => c == ' ' || c == '.' || isExponentLetter c) && groupsTouch s

/-! ### Any scalar -/

/-- The value of a scalar that is not a string. -/
def scalar? (s : List Char) : Option Value :=
  if s = "true".toList then some (.boolean true)
  else if s = "false".toList then some (.boolean false)
  else if isBareBase s then some (.unrepresentable (String.ofList s))
  else
    match integer? s, float? s with
    | some n, _ => some (if fits n then .integer n else .unrepresentable (String.ofList s))
    | none, some true => some (.float (String.ofList s))
    | none, some false => some (.unrepresentable (String.ofList s))
    | none, none =>
      if isDateTime s then some (.dateTime (String.ofList s))
      else if passesForInteger (splitSign s).2 then some (.unrepresentable (String.ofList s))
      else none

/-- A character that ends a word of a scalar. -/
def endsScalar (c : Char) : Bool :=
  [',', '=', '[', ']', '\x7b', '\x7d', '#', ' ', '\t', '\r', '\n'].contains c

/-- Whether a word of a scalar starts after the blanks at the start of a text; a string is none. -/
def continuesScalar (s : List Char) : Bool :=
  (skipBlanks s).head?.any fun c => !endsScalar c && c != '"' && c != '\''

/-- The scalar at the start of a text and what follows it. It goes on as long as words follow one another
with blanks between them; a date and a time are such words. -/
def takeScalar : List Char → List Char × List Char
  | [] => ([], [])
  | c :: rest =>
    if (if isBlank c then continuesScalar rest else !endsScalar c) then
      let (scalar, after) := takeScalar rest
      (c :: scalar, after)
    else ([], c :: rest)

end Preflight.Toml

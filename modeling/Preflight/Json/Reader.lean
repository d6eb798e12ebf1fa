import Preflight.Json.Literal
import Preflight.Text.Hex

/-!
# Reading JSON texts

A strict reader of the JSON grammar: nothing before or after the value but
blanks, no comments, no trailing commas, no leading zeros, no raw control
characters in strings, no lone surrogate escapes. Arrays and objects may nest
127 deep. A text that is no JSON value gives a failure that says why and where
reading stopped.

Each function takes what is left of the text and returns a value with what
follows it.
-/

set_option autoImplicit false

namespace Preflight.Json

open Preflight.Text

/-- Why a text is no JSON value. -/
inductive Cause where
  | endOfText
  | expectedValue
  | expectedName
  | expectedColon
  | expectedCommaOrEnd
  | badNumber
  | numberOutOfRange
  | badEscape
  | loneSurrogate
  | controlCharacter
  | nestedTooDeep
  | trailingCharacters
deriving Repr, DecidableEq

def Cause.message : Cause → String
  | .endOfText => "unexpected end of text"
  | .expectedValue => "expected a value"
  | .expectedName => "expected a member name in quotes"
  | .expectedColon => "expected a colon"
  | .expectedCommaOrEnd => "expected a comma or the end of the list"
  | .badNumber => "malformed number"
  | .numberOutOfRange => "number out of range"
  | .badEscape => "malformed escape"
  | .loneSurrogate => "lone surrogate in an escape"
  | .controlCharacter => "control character in a string"
  | .nestedTooDeep => "nested too deep"
  | .trailingCharacters => "trailing characters"

/-- A cause and the part of the text that had not been read when it arose. -/
structure Failure where
  cause : Cause
  rest : List Char
deriving Repr, DecidableEq

/-- A value read from the start of a text, with the rest of the text. -/
abbrev Reading (α : Type) := Except Failure (α × List Char)

/-- The failure of a cause at the rest of the text. -/
def fail {α : Type} (cause : Cause) (rest : List Char) : Reading α :=
  .error ⟨cause, rest⟩

/-- The cause and the line and column, counted from one, at which it arose in the text. -/
def Failure.describe (failure : Failure) (text : List Char) : String :=
  let consumed := text.take (text.length - failure.rest.length)
  let line := consumed.count '\n' + 1
  let column := (consumed.reverse.takeWhile (· ≠ '\n')).length + 1
  s!"{failure.cause.message} at line {line} column {column}"

/-- The four blanks of JSON. -/
def isJsonBlank (c : Char) : Bool :=
  c == ' ' || c == '\t' || c == '\n' || c == '\r'

/-- The text without leading blanks. -/
def skipBlank (s : List Char) : List Char :=
  s.dropWhile isJsonBlank

/-! ### Strings -/

/-- The character that a one-letter escape denotes. -/
def escape? : Char → Option Char
  | '"' => some '"'
  | '\\' => some '\\'
  | '/' => some '/'
  | 'b' => some '\x08'
  | 'f' => some '\x0c'
  | 'n' => some '\n'
  | 'r' => some '\r'
  | 't' => some '\t'
  | _ => none

/-- A first half of a surrogate pair. -/
def isHighSurrogate (n : Nat) : Bool :=
  0xD800 ≤ n && n ≤ 0xDBFF

/-- A second half of a surrogate pair. -/
def isLowSurrogate (n : Nat) : Bool :=
  0xDC00 ≤ n && n ≤ 0xDFFF

/-- Put a character before the characters that a reading returns. -/
def consReading (c : Char) : Reading (List Char) → Reading (List Char)
  | .ok (cs, rest) => .ok (c :: cs, rest)
  | .error failure => .error failure

/-- The characters of a string up to its closing quote; the opening quote has been read. -/
def stringBody : List Char → Reading (List Char)
  | [] => fail .endOfText []
  | '"' :: rest => .ok ([], rest)
  | '\\' :: 'u' :: a :: b :: c :: d :: '\\' :: 'u' :: e :: f :: g :: h :: rest =>
    match hexNumber? [a, b, c, d] with
    | none => fail .badEscape ('\\' :: 'u' :: a :: b :: c :: d :: '\\' :: 'u' :: e :: f :: g :: h :: rest)
    | some n =>
      if isHighSurrogate n then
        match hexNumber? [e, f, g, h] with
        | none => fail .badEscape ('\\' :: 'u' :: e :: f :: g :: h :: rest)
        | some m =>
          if isLowSurrogate m then
            consReading (Char.ofNat (0x10000 + 1024 * (n - 0xD800) + (m - 0xDC00))) (stringBody rest)
          else fail .loneSurrogate ('\\' :: 'u' :: e :: f :: g :: h :: rest)
      else if isLowSurrogate n then fail .loneSurrogate ('\\' :: 'u' :: e :: f :: g :: h :: rest)
      else consReading (Char.ofNat n) (stringBody ('\\' :: 'u' :: e :: f :: g :: h :: rest))
  | '\\' :: 'u' :: a :: b :: c :: d :: rest =>
    match hexNumber? [a, b, c, d] with
    | none => fail .badEscape ('\\' :: 'u' :: a :: b :: c :: d :: rest)
    | some n =>
      if isHighSurrogate n || isLowSurrogate n then fail .loneSurrogate rest
      else consReading (Char.ofNat n) (stringBody rest)
  | '\\' :: c :: rest =>
    match escape? c with
    | some c => consReading c (stringBody rest)
    | none => fail .badEscape (c :: rest)
  | '\\' :: [] => fail .endOfText []
  | c :: rest =>
    if c.toNat < 0x20 then fail .controlCharacter (c :: rest) else consReading c (stringBody rest)

/-! ### Numbers -/

/-- The exponent of a number, if one is written. -/
def exponent : List Char → Reading (Option Exponent)
  | e :: rest =>
    if e == 'e' || e == 'E' then
      let (negative, rest) := match rest with
        | '-' :: rest => (true, rest)
        | '+' :: rest => (false, rest)
        | rest => (false, rest)
      match rest.takeWhile isAsciiDigit with
      | [] => fail .badNumber rest
      | digits => .ok (some ⟨negative, digits⟩, rest.dropWhile isAsciiDigit)
    else .ok (none, e :: rest)
  | [] => .ok (none, [])

/-- The fraction of a number, if one is written. -/
def fraction : List Char → Reading (Option (List Char))
  | '.' :: rest =>
    match rest.takeWhile isAsciiDigit with
    | [] => fail .badNumber rest
    | digits => .ok (some digits, rest.dropWhile isAsciiDigit)
  | rest => .ok (none, rest)

/-- A number literal without its sign: no leading zeros, digits after a point and in an exponent. -/
def unsignedLiteral (negative : Bool) (s : List Char) :
    Except Failure (Literal × List Char) := do
  let whole := s.takeWhile isAsciiDigit
  if whole.isEmpty || (whole.length != 1 && whole.head? == some '0') then fail .badNumber s
  else
    let (fraction, rest) ← fraction (s.dropWhile isAsciiDigit)
    let (exponent, rest) ← exponent rest
    return (⟨negative, whole, fraction, exponent⟩, rest)

def number (s : List Char) : Except Failure (Number × List Char) := do
  let (literal, rest) ← match s with
    | '-' :: rest => unsignedLiteral true rest
    | rest => unsignedLiteral false rest
  match literal.value? with
  | some n => return (n, rest)
  | none => fail .numberOutOfRange rest

/-! ### Values -/

/-- How deep arrays and objects may nest. -/
def maxDepth : Nat := 127

mutual

/-- A value. Arrays and objects may still nest `depth` deep; `fuel` bounds the steps left and is
never exhausted when it exceeds twice the length of the text. -/
def value : (fuel depth : Nat) → List Char → Reading Value
  | 0, _, s => fail .endOfText s
  | fuel + 1, depth, s =>
    match skipBlank s with
    | 'n' :: 'u' :: 'l' :: 'l' :: rest => .ok (.null, rest)
    | 't' :: 'r' :: 'u' :: 'e' :: rest => .ok (.bool true, rest)
    | 'f' :: 'a' :: 'l' :: 's' :: 'e' :: rest => .ok (.bool false, rest)
    | '"' :: rest =>
      match stringBody rest with
      | .ok (cs, rest) => .ok (.string (String.ofList cs), rest)
      | .error failure => .error failure
    | '[' :: rest =>
      match depth with
      | 0 => fail .nestedTooDeep rest
      | depth + 1 =>
        match skipBlank rest with
        | ']' :: rest => .ok (.array [], rest)
        | rest =>
          match items fuel depth rest with
          | .ok (vs, rest) => .ok (.array vs, rest)
          | .error failure => .error failure
    | '\x7b' :: rest =>
      match depth with
      | 0 => fail .nestedTooDeep rest
      | depth + 1 =>
        match skipBlank rest with
        | '\x7d' :: rest => .ok (.object [], rest)
        | rest =>
          match members fuel depth rest with
          | .ok (ms, rest) => .ok (.object ms, rest)
          | .error failure => .error failure
    | [] => fail .endOfText []
    | c :: rest =>
      if c == '-' || isAsciiDigit c then
        match number (c :: rest) with
        | .ok (n, rest) => .ok (.number n, rest)
        | .error failure => .error failure
      else fail .expectedValue (c :: rest)

/-- The items of an array, of which there is at least one, up to the closing bracket. -/
def items : (fuel depth : Nat) → List Char → Reading (List Value)
  | 0, _, s => fail .endOfText s
  | fuel + 1, depth, s =>
    match value fuel depth s with
    | .error failure => .error failure
    | .ok (v, rest) =>
      match skipBlank rest with
      | ',' :: rest =>
        match items fuel depth rest with
        | .ok (vs, rest) => .ok (v :: vs, rest)
        | .error failure => .error failure
      | ']' :: rest => .ok ([v], rest)
      | [] => fail .endOfText []
      | rest => fail .expectedCommaOrEnd rest

/-- The members of an object, of which there is at least one, up to the closing brace. -/
def members : (fuel depth : Nat) → List Char → Reading (List (String × Value))
  | 0, _, s => fail .endOfText s
  | fuel + 1, depth, s =>
    match skipBlank s with
    | '"' :: rest =>
      match stringBody rest with
      | .error failure => .error failure
      | .ok (name, rest) =>
        match skipBlank rest with
        | ':' :: rest =>
          match value fuel depth rest with
          | .error failure => .error failure
          | .ok (v, rest) =>
            match skipBlank rest with
            | ',' :: rest =>
              match members fuel depth rest with
              | .ok (ms, rest) => .ok ((String.ofList name, v) :: ms, rest)
              | .error failure => .error failure
            | '\x7d' :: rest => .ok ([(String.ofList name, v)], rest)
            | [] => fail .endOfText []
            | rest => fail .expectedCommaOrEnd rest
        | [] => fail .endOfText []
        | rest => fail .expectedColon rest
    | [] => fail .endOfText []
    | rest => fail .expectedName rest

end

/-- The value that a whole text denotes. -/
def Value.ofText (text : String) : Except Failure Value :=
  let s := text.toList
  match value (2 * s.length + 1) maxDepth s with
  | .error failure => .error failure
  | .ok (v, rest) =>
    match skipBlank rest with
    | [] => .ok v
    | rest => .error ⟨.trailingCharacters, rest⟩

end Preflight.Json

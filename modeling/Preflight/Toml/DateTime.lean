import Preflight.Text.Ascii

/-!
# Dates and times of TOML

A date, a time, or both, and after both possibly an offset. Seconds may be left
out, and only if they are written may a fraction of them follow. Days must exist in
their month, and the last second of a minute may be a leap second.
-/

set_option autoImplicit false

namespace Preflight.Toml

open Preflight.Text

/-- The number of days of a month. -/
def daysOf (year month : Nat) : Nat :=
  if month = 2 then
    if year % 4 = 0 ∧ (year % 100 ≠ 0 ∨ year % 400 = 0) then 29 else 28
  else if month = 4 ∨ month = 6 ∨ month = 9 ∨ month = 11 then 30
  else 31

/-- The number that two digits denote. -/
def twoDigits? (a b : Char) : Option Nat :=
  if isAsciiDigit a && isAsciiDigit b then some (decimalValue [a, b]) else none

/-- The text after a date at its start: year, month and day. -/
def afterDate? : List Char → Option (List Char)
  | a :: b :: c :: d :: '-' :: e :: f :: '-' :: g :: h :: rest => do
    let century ← twoDigits? a b
    let year ← twoDigits? c d
    let month ← twoDigits? e f
    let day ← twoDigits? g h
    if 1 ≤ month ∧ month ≤ 12 ∧ 1 ≤ day ∧ day ≤ daysOf (100 * century + year) month then some rest
    else none
  | _ => none

/-- The text after hours and minutes at its start. -/
def afterMinutes? : List Char → Option (List Char)
  | a :: b :: ':' :: c :: d :: rest => do
    let hours ← twoDigits? a b
    let minutes ← twoDigits? c d
    if hours ≤ 23 ∧ minutes ≤ 59 then some rest else none
  | _ => none

/-- The text after a fraction of a second, if there is one. -/
def afterFraction? : List Char → Option (List Char)
  | '.' :: c :: rest => if isAsciiDigit c then some (rest.dropWhile isAsciiDigit) else none
  | rest => some rest

/-- The text after seconds, if there are any. -/
def afterSeconds? : List Char → Option (List Char)
  | ':' :: a :: b :: rest => do
    let seconds ← twoDigits? a b
    if seconds ≤ 60 then afterFraction? rest else none
  | rest => some rest

/-- The text after a time at its start. -/
def afterTime? (s : List Char) : Option (List Char) :=
  (afterMinutes? s).bind afterSeconds?

/-- Whether a text is an offset from universal time, or nothing. -/
def isOffset : List Char → Bool
  | [] => true
  | [c] => c == 'Z' || c == 'z'
  | c :: rest => (c == '+' || c == '-') && afterMinutes? rest == some []

/-- A character between a date and a time. -/
def joinsTime (c : Char) : Bool :=
  c == 'T' || c == 't' || c == ' '

/-- Whether a text is a date, a time, or a date and a time. -/
def isDateTime (s : List Char) : Bool :=
  match afterDate? s with
  | none => afterTime? s == some []
  | some [] => true
  | some (c :: rest) => joinsTime c && (afterTime? rest).any isOffset

end Preflight.Toml

import Preflight.Json.Value
import Preflight.Text.Ascii

/-!
# Number literals of JSON

The parts of a number as they are written, and the number that they denote. The
digits of the significand are read into 64 bits; digits that no longer fit count
only through their place. The double is then the significand times or divided by
a power of ten, so the result is rounded twice and need not be the double
nearest to the literal. A literal beyond the range of doubles denotes nothing.
-/

set_option autoImplicit false

namespace Preflight.Json

open Preflight.Number Preflight.Text

/-- The exponent of a literal: its sign and its digits. -/
structure Exponent where
  negative : Bool
  digits : List Char
deriving Repr, DecidableEq

/-- The parts of a number literal. -/
structure Literal where
  negative : Bool
  /-- The digits before the point. -/
  whole : List Char
  /-- The digits after the point; none if there is no point. -/
  fraction : Option (List Char)
  exponent : Option Exponent
deriving Repr, DecidableEq

namespace Literal

def maxSignificand : Nat := UInt64.size - 1

/-- Read digits before the point into a significand; once one does not fit, the digits are only counted. -/
def readWhole : Nat → List Char → Nat × Nat
  | significand, [] => (significand, 0)
  | significand, c :: rest =>
    let next := 10 * significand + digitValue c
    if next ≤ maxSignificand then readWhole next rest else (significand, rest.length + 1)

/-- Read digits after the point into a significand, with the number of digits read; once one does not fit, all are dropped. -/
def readFraction : Nat → List Char → Nat × Nat
  | significand, [] => (significand, 0)
  | significand, c :: rest =>
    let next := 10 * significand + digitValue c
    if next ≤ maxSignificand then
      let (significand, places) := readFraction next rest
      (significand, places + 1)
    else (significand, 0)

/-- A double divided by `10 ^ e`, in steps of at most `10 ^ 308`. -/
def scaleDown (x : Binary64) (e : Nat) : Option Binary64 :=
  if x.isZero then some x
  else if _ : e ≤ 308 then x.div? (Binary64.ofNat (tenTo e))
  else do scaleDown (← x.div? (Binary64.ofNat (tenTo 308))) (e - 308)
termination_by e

/-- The double `significand · 10 ^ e`, unless it is beyond the range of doubles. -/
def scale (significand : Nat) (e : Int) : Option Binary64 :=
  let x := Binary64.ofNat significand
  if e < 0 then scaleDown x e.natAbs
  else if e ≤ 308 then x.mul? (Binary64.ofNat (tenTo e.toNat))
  else if x.isZero then some x else none

/-- The double of a significand, a power of ten and a written exponent. An exponent beyond 32 bits
means zero or a number out of range. -/
def toDouble (significand : Nat) (e : Int) : Option Exponent → Option Binary64
  | none => scale significand e
  | some written =>
    let n := decimalValue written.digits
    if n < twoTo 31 then scale significand (if written.negative then e - n else e + n)
    else if significand ≠ 0 ∧ !written.negative then none
    else some (Binary64.zero false)

/-- The number that a literal denotes; none if it is beyond the range of doubles. -/
def value? (l : Literal) : Option Number :=
  let (significand, dropped) := readWhole 0 l.whole
  let double (x : Option Binary64) : Option Number :=
    x.map fun x => .double (if l.negative then x.neg else x)
  match l.fraction, l.exponent with
  | none, none =>
    if dropped ≠ 0 then double (scale significand dropped)
    else if !l.negative then some (.integer significand)
    else if significand ≠ 0 ∧ significand ≤ twoTo 63 then some (.integer (-significand))
    else double (some (Binary64.ofNat significand))
  | none, some _ => double (toDouble significand dropped l.exponent)
  | some digits, _ =>
    let (significand, places) := readFraction significand digits
    double (toDouble significand (dropped - places) l.exponent)

end Literal

end Preflight.Json

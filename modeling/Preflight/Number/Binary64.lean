import Preflight.Number.Power

/-!
# Doubles in exact arithmetic

The finite numbers of the 64-bit binary floating-point format, as a sign and an
exact magnitude `significand · 2 ^ exponent`. Every operation computes with
natural numbers and rounds once, to the nearest double, a tie going to the even
significand; a result beyond the largest double is `none`. There are no
infinities and no NaN.
-/

set_option autoImplicit false

namespace Preflight.Number

/-- A finite double. The significand has 53 bits, unless the exponent is already the least one. -/
structure Binary64 where
  negative : Bool
  significand : Nat
  exponent : Int
  canonical : significand < twoTo 53 ∧ -1074 ≤ exponent ∧ exponent ≤ 971 ∧
    (twoTo 52 ≤ significand ∨ exponent = -1074)
deriving Repr, DecidableEq

/-- The natural number nearest to `num / den`; halfway between two, the even one. -/
def roundHalfEven (num den : Nat) : Nat :=
  let quotient := num / den
  let twice := 2 * (num % den)
  if twice < den then quotient
  else if den < twice then quotient + 1
  else if quotient % 2 = 0 then quotient else quotient + 1

namespace Binary64

def zero (negative : Bool) : Binary64 :=
  ⟨negative, 0, -1074, by decide⟩

instance : Inhabited Binary64 := ⟨zero false⟩

def largest : Binary64 :=
  ⟨false, twoTo 53 - 1, 971, by decide⟩

/-- The exponent at which `num / den` has a significand of 53 bits, or the least exponent if that is larger. -/
def exponentOf (num den : Nat) : Int :=
  let e : Int := (num.log2 : Int) - den.log2 - 53
  let e := if num * twoTo (-e).toNat < twoTo 53 * den * twoTo e.toNat then e else e + 1
  max e (-1074)

/-- The double nearest to `± num / den`, unless that is beyond the largest double. -/
def ofRatio? (negative : Bool) (num den : Nat) : Option Binary64 :=
  if num = 0 then some (zero negative)
  else
    let e := exponentOf num den
    let m := roundHalfEven (num * twoTo (-e).toNat) (den * twoTo e.toNat)
    let (m, e) := if m = twoTo 53 then (twoTo 52, e + 1) else (m, e)
    if h : m < twoTo 53 ∧ -1074 ≤ e ∧ e ≤ 971 ∧ (twoTo 52 ≤ m ∨ e = -1074) then
      some ⟨negative, m, e, h⟩
    else none

/-- The double nearest to a natural number, or the largest double for a number beyond them all. -/
def ofNat (n : Nat) : Binary64 :=
  (ofRatio? false n 1).getD largest

/-- The magnitude is `numerator / denominator`. -/
def numerator (x : Binary64) : Nat :=
  x.significand * twoTo x.exponent.toNat

/-- The magnitude is `numerator / denominator`. -/
def denominator (x : Binary64) : Nat :=
  twoTo (-x.exponent).toNat

def signedNumerator (x : Binary64) : Int :=
  if x.negative then -(x.numerator : Int) else x.numerator

def isZero (x : Binary64) : Bool :=
  x.significand == 0

/-- The number with the opposite sign. -/
def neg (x : Binary64) : Binary64 :=
  { x with negative := !x.negative }

/-- The product, rounded. -/
def mul? (x y : Binary64) : Option Binary64 :=
  ofRatio? (x.negative != y.negative) (x.numerator * y.numerator) (x.denominator * y.denominator)

/-- The quotient by a number other than zero, rounded. -/
def div? (x y : Binary64) : Option Binary64 :=
  ofRatio? (x.negative != y.negative) (x.numerator * y.denominator) (x.denominator * y.numerator)

/-- Order by value; the two zeros are equal in it. -/
def le (x y : Binary64) : Bool :=
  x.signedNumerator * y.denominator ≤ y.signedNumerator * x.denominator

/-- Strict order by value. -/
def lt (x y : Binary64) : Bool :=
  !le y x

end Binary64

end Preflight.Number

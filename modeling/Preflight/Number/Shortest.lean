import Preflight.Number.Binary64

/-!
# The shortest decimal of a double

A double stands for all reals that round to it. Its shortest decimal is the
decimal of fewest digits among them, the nearest to the double if there are two,
and the one with the even last digit if both are equally near. It is found by
exact arithmetic: on the grid of decimals with one, two, three digits and so on
only the two neighbours of the double need to be looked at.
-/

set_option autoImplicit false

namespace Preflight.Number

/-- The decimal number `digits · 10 ^ exponent`. -/
structure Decimal where
  digits : Nat
  exponent : Int
deriving Repr, DecidableEq

namespace Decimal

/-- Order of a decimal against the fraction `num / den`. -/
def compareWith (d : Decimal) (num den : Nat) : Ordering :=
  compare (d.digits * tenTo d.exponent.toNat * den) (num * tenTo (-d.exponent).toNat)

/-- The same number without final zeros among its digits; `steps` bounds how many are removed. -/
def strip : Nat → Decimal → Decimal
  | 0, d => d
  | steps + 1, d =>
    if d.digits ≠ 0 ∧ d.digits % 10 = 0 then strip steps ⟨d.digits / 10, d.exponent + 1⟩ else d

end Decimal

namespace Binary64

/-- Whether a decimal rounds to the magnitude of `x`: it lies between the midpoints to the neighbours
of `x`, and on one of them only if the significand of `x` is even. Below a power of two the gap is half as wide. -/
def roundsTo (x : Binary64) (d : Decimal) : Bool :=
  let gapBelow := if x.significand = twoTo 52 ∧ x.exponent ≠ -1074 then 1 else 2
  let unit := twoTo x.exponent.toNat
  let den := 4 * x.denominator
  let low := d.compareWith ((4 * x.significand - gapBelow) * unit) den
  let high := d.compareWith ((4 * x.significand + 2) * unit) den
  let even := x.significand % 2 == 0
  (low == .gt || (even && low == .eq)) && (high == .lt || (even && high == .eq))

/-- The least `k` with magnitude below `10 ^ k`, for a number other than zero. -/
def decimalScale (x : Binary64) : Int :=
  let k : Int := (Nat.toDigits 10 x.numerator).length - (Nat.toDigits 10 x.denominator).length
  if (⟨1, k⟩ : Decimal).compareWith x.numerator x.denominator == .gt then k else k + 1

/-- The decimal with `n` digits that rounds to `x`, the nearer of two, if there is one. -/
def decimalOf? (x : Binary64) (n : Nat) : Option Decimal :=
  let grid := x.decimalScale - n
  let below := x.numerator * tenTo (-grid).toNat / (x.denominator * tenTo grid.toNat)
  let lower : Decimal := ⟨below, grid⟩
  let upper : Decimal := ⟨below + 1, grid⟩
  match x.roundsTo lower, x.roundsTo upper with
  | false, false => none
  | true, false => some lower
  | false, true => some upper
  | true, true =>
    match (⟨2 * below + 1, grid⟩ : Decimal).compareWith (2 * x.numerator) x.denominator with
    | .gt => some lower
    | .lt => some upper
    | .eq => some (if below % 2 = 0 then lower else upper)

/-- The magnitude as an exact decimal. -/
def exactDecimal (x : Binary64) : Decimal :=
  ⟨x.significand * twoTo x.exponent.toNat * Nat.pow 5 (-x.exponent).toNat, -(-x.exponent).toNat⟩

/-- The shortest decimal that rounds to the magnitude of a number other than zero. -/
def shortest (x : Binary64) : Decimal :=
  let found := (List.range 17).findSome? fun i => x.decimalOf? (i + 1)
  (found.getD x.exactDecimal).strip 800

end Binary64

end Preflight.Number

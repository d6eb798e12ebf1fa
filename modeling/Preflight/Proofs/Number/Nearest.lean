import Mathlib.Algebra.Order.Field.Power
import Mathlib.Data.Rat.Floor
import Mathlib.Tactic.FieldSimp
import Mathlib.Tactic.Linarith
import Mathlib.Tactic.NormNum
import Mathlib.Tactic.Positivity
import Mathlib.Tactic.Ring
import Preflight.Number.Binary64

/-!
# Doubles as rational numbers

A double stands for a rational number, `Binary64.value`, and the comparisons of doubles
are those of their values. An operation rounds the exact result to a number of which 53
binary digits are enough: no such number is nearer (`isNearest_of_ofRatio?`). Below
`2 ^ 64` there always is a result (`exists_ofRatio?`). So natural numbers up to `2 ^ 53`
stay as they are, and for all others rounding keeps the order, though it can make two of
them equal.
-/

set_option autoImplicit false

namespace Preflight.Number

/-! ### Powers of two -/

/-- No power of two is zero. -/
theorem twoTo_pos (k : Nat) : 0 < twoTo k :=
  Nat.pow_pos (by decide)

/-- The powers of two are those of the rationals. -/
theorem cast_twoTo (k : Nat) : (twoTo k : ℚ) = 2 ^ k := by
  simp [twoTo]

/-- An integer power is the quotient of the two natural powers that the operations compute with. -/
theorem two_zpow_eq (e : Int) : (2 : ℚ) ^ e = twoTo e.toNat / twoTo (-e).toNat := by
  rw [cast_twoTo, cast_twoTo]
  rcases Int.le_total 0 e with he | he
  · obtain ⟨k, rfl⟩ := Int.eq_ofNat_of_zero_le he
    simp
  · obtain ⟨k, hk⟩ := Int.eq_ofNat_of_zero_le (Int.neg_nonneg_of_nonpos he)
    obtain rfl : e = -(k : Int) := by omega
    simp

/-- A power of two with a larger exponent is a multiple. -/
theorem two_zpow_add (e : Int) (k : Nat) : (2 : ℚ) ^ (e + k) = 2 ^ k * 2 ^ e := by
  rw [zpow_add₀ two_ne_zero, zpow_natCast, mul_comm]

variable {num den : Nat}

/-- Scaling numerator and denominator by powers of two divides the quotient by one. -/
theorem scaled_eq (num den : Nat) (e : Int) :
    ((num * twoTo (-e).toNat : Nat) : ℚ) / (den * twoTo e.toNat : Nat) = num / den / 2 ^ e := by
  rw [two_zpow_eq, div_div_div_eq]
  push_cast
  rfl

/-! ### Nearer numbers -/

section Near

variable {x v q : ℚ}

/-- A number that is nearer to `q` than a smaller one is at most as far above `q` as that is below. -/
theorem add_le_of_abs_sub_le (h : |x - q| ≤ |v - q|) (hlt : v < x) : v + x ≤ 2 * q := by
  rcases abs_cases (v - q) with ⟨habs, -⟩ | ⟨habs, -⟩ <;> linarith [le_abs_self (x - q)]

/-- A number that is nearer to `q` than a larger one is at most as far below `q` as that is above. -/
theorem le_add_of_abs_sub_le (h : |x - q| ≤ |v - q|) (hlt : x < v) : 2 * q ≤ v + x := by
  rcases abs_cases (v - q) with ⟨habs, -⟩ | ⟨habs, -⟩ <;> linarith [neg_abs_le (x - q)]

/-- What is at least as near as a number below is not below that number. -/
theorem le_of_abs_sub_le (h : |x - q| ≤ |v - q|) (hle : v ≤ q) : v ≤ x := by
  by_contra! hlt
  linarith [le_add_of_abs_sub_le h hlt]

/-- What is at least as near as a number above is not above that number. -/
theorem ge_of_abs_sub_le (h : |x - q| ≤ |v - q|) (hle : q ≤ v) : x ≤ v := by
  by_contra! hlt
  linarith [add_le_of_abs_sub_le h hlt]

end Near

/-! ### Rounding to a natural number -/

/-- Rounding goes down if the remainder is at most half of the denominator, and up if it is at least
half. -/
theorem roundHalfEven_cases (num den : Nat) :
    (2 * (num % den) ≤ den ∧ roundHalfEven num den = num / den) ∨
      (den ≤ 2 * (num % den) ∧ roundHalfEven num den = num / den + 1) := by
  unfold roundHalfEven
  dsimp only
  split
  · omega
  · split
    · omega
    · split <;> omega

/-- A quotient is its whole part and what the remainder adds. -/
theorem cast_div_eq (hden : 0 < den) :
    (num : ℚ) / den = (num / den : Nat) + ((num % den : Nat) : ℚ) / den := by
  have hcast : (num : ℚ) = den * (num / den : Nat) + (num % den : Nat) := by
    exact_mod_cast (Nat.div_add_mod num den).symm
  have hpos : (0 : ℚ) < den := by exact_mod_cast hden
  rw [div_eq_iff hpos.ne', hcast]
  field_simp

/-- No integer is nearer to a fraction than the one that it is rounded to. -/
theorem abs_roundHalfEven_sub_le (num : Nat) (hden : 0 < den) (k : Int) :
    |(roundHalfEven num den : ℚ) - num / den| ≤ |(k : ℚ) - num / den| := by
  have hpos : (0 : ℚ) < den := by exact_mod_cast hden
  have hfract : Int.fract ((num : ℚ) / den) = ((num % den : Nat) : ℚ) / den :=
    Int.fract_div_natCast_eq_div_natCast_mod
  -- the rounded fraction is as far away as the nearest integer of the library
  have hmin : |(roundHalfEven num den : ℚ) - num / den| =
      min (Int.fract ((num : ℚ) / den)) (1 - Int.fract ((num : ℚ) / den)) := by
    have hnonneg : 0 ≤ ((num % den : Nat) : ℚ) / den := by positivity
    have hlt : ((num % den : Nat) : ℚ) / den < 1 := by
      rw [div_lt_one hpos]
      exact_mod_cast Nat.mod_lt num hden
    rw [hfract, cast_div_eq hden]
    rcases roundHalfEven_cases num den with ⟨htwice, hround⟩ | ⟨htwice, hround⟩
    · have hhalf : ((num % den : Nat) : ℚ) / den ≤ 1 / 2 := by
        rw [div_le_div_iff₀ hpos two_pos]
        exact_mod_cast (by omega : num % den * 2 ≤ 1 * den)
      rw [hround, sub_add_cancel_left, abs_neg, abs_of_nonneg hnonneg, min_eq_left (by linarith)]
    · have hhalf : 1 / 2 ≤ ((num % den : Nat) : ℚ) / den := by
        rw [div_le_div_iff₀ two_pos hpos]
        exact_mod_cast (by omega : 1 * den ≤ num % den * 2)
      rw [hround, Nat.cast_add_one, add_sub_add_left_eq_sub, abs_of_nonneg (by linarith),
        min_eq_right (by linarith)]
  rw [hmin, ← abs_sub_round_eq_min, abs_sub_comm (k : ℚ)]
  exact round_le _ k

/-- Rounding does not go below a whole number that is not above the quotient. -/
theorem le_roundHalfEven (hden : 0 < den) {k : Nat} (h : (k : ℚ) ≤ num / den) :
    k ≤ roundHalfEven num den := by
  exact_mod_cast le_of_abs_sub_le (abs_roundHalfEven_sub_le num hden k) h

/-- Rounding does not go above a whole number that is not below the quotient. -/
theorem roundHalfEven_le (hden : 0 < den) {k : Nat} (h : (num : ℚ) / den ≤ k) :
    roundHalfEven num den ≤ k := by
  exact_mod_cast ge_of_abs_sub_le (abs_roundHalfEven_sub_le num hden k) h

/-! ### The exponent of a fraction -/

/-- At this exponent a number has a significand of 53 binary digits, or of fewer at the least one. -/
structure IsExponentOf (q : ℚ) (e : Int) : Prop where
  least_le : -1074 ≤ e
  lt_mul : q < 2 ^ 53 * 2 ^ e
  mul_le : e = -1074 ∨ 2 ^ 52 * 2 ^ e ≤ q

/-- A positive number is between the power of two of its logarithm and the next one. -/
theorem log2_bounds {n : Nat} (hn : 0 < n) :
    (2 : ℚ) ^ (n.log2 : Int) ≤ n ∧ (n : ℚ) < 2 ^ ((n.log2 : Int) + 1) := by
  constructor
  · rw [zpow_natCast]
    exact_mod_cast Nat.log2_self_le hn.ne'
  · rw [← Int.natCast_succ, zpow_natCast]
    exact_mod_cast Nat.lt_log2_self

/-- The comparison with which the exponent is found, as one of the fraction itself. -/
theorem scaled_lt_iff (hden : 0 < den) (e : Int) :
    num * twoTo (-e).toNat < twoTo 53 * den * twoTo e.toNat ↔
      (num : ℚ) / den < 2 ^ 53 * 2 ^ e := by
  have hscale : (0 : ℚ) < (den * twoTo e.toNat : Nat) := by
    exact_mod_cast Nat.mul_pos hden (twoTo_pos _)
  rw [← div_lt_iff₀ (by positivity), ← scaled_eq, div_lt_iff₀ hscale, ← cast_twoTo, mul_assoc]
  exact_mod_cast Iff.rfl

/-- The two logarithms give the exponent of a fraction, or the one below it. -/
theorem log2_sub_bounds (hnum : 0 < num) (hden : 0 < den) {e : Int}
    (he : (num.log2 : Int) - den.log2 - 53 = e) :
    2 ^ 52 * 2 ^ e ≤ (num : ℚ) / den ∧ (num : ℚ) / den < 2 ^ 53 * 2 ^ (e + 1) := by
  obtain ⟨hnumle, hnumlt⟩ := log2_bounds hnum
  obtain ⟨hdenle, hdenlt⟩ := log2_bounds hden
  have hpos : (0 : ℚ) < den := by exact_mod_cast hden
  constructor
  · rw [← two_zpow_add, le_div_iff₀ hpos]
    calc (2 : ℚ) ^ (e + (52 : Nat)) * den
        ≤ 2 ^ (e + (52 : Nat)) * 2 ^ ((den.log2 : Int) + 1) := by gcongr
      _ = 2 ^ (num.log2 : Int) := by
        rw [← zpow_add₀ two_ne_zero]
        congr 1
        omega
      _ ≤ num := hnumle
  · rw [← two_zpow_add, div_lt_iff₀ hpos]
    calc (num : ℚ) < 2 ^ ((num.log2 : Int) + 1) := hnumlt
      _ = 2 ^ (e + 1 + (53 : Nat)) * 2 ^ (den.log2 : Int) := by
        rw [← zpow_add₀ two_ne_zero]
        congr 1
        omega
      _ ≤ 2 ^ (e + 1 + (53 : Nat)) * den := by gcongr

/-- The exponent that is computed from numerator and denominator is that of the quotient. -/
theorem isExponentOf_exponentOf (hnum : 0 < num) (hden : 0 < den) :
    IsExponentOf ((num : ℚ) / den) (Binary64.exponentOf num den) := by
  generalize he : (num.log2 : Int) - den.log2 - 53 = e
  obtain ⟨hle, hlt⟩ := log2_sub_bounds hnum hden he
  have hnormal : ∃ f : Int, Binary64.exponentOf num den = max f (-1074) ∧
      (num : ℚ) / den < 2 ^ 53 * 2 ^ f ∧ 2 ^ 52 * 2 ^ f ≤ (num : ℚ) / den := by
    refine ⟨_, rfl, ?_⟩
    rw [he]
    split
    next htest => exact ⟨(scaled_lt_iff hden e).1 htest, hle⟩
    next htest =>
      rw [scaled_lt_iff hden, not_lt] at htest
      refine ⟨hlt, le_trans (le_of_eq ?_) htest⟩
      rw [zpow_add_one₀ two_ne_zero]
      ring
  obtain ⟨f, hf, hltf, hlef⟩ := hnormal
  rw [hf]
  rcases le_total f (-1074) with hleast | hleast
  · rw [max_eq_right hleast]
    refine ⟨le_rfl, hltf.trans_le ?_, .inl rfl⟩
    gcongr
    exact one_le_two
  · rw [max_eq_left hleast]
    exact ⟨hleast, hltf, .inr hlef⟩

/-! ### Numbers of 53 binary digits -/

/-- The numbers of which 53 binary digits are enough, however large they are. -/
def Fits (v : ℚ) : Prop :=
  ∃ s e : Int, |s| ≤ 2 ^ 53 ∧ -1074 ≤ e ∧ v = s * 2 ^ e

/-- Whole numbers up to the fifty-third power of two fit. -/
theorem fits_natCast {n : Nat} (hn : n ≤ 2 ^ 53) : Fits n := by
  refine ⟨n, 0, ?_, by decide, by simp⟩
  rw [Nat.abs_cast]
  exact_mod_cast hn

/-- At the exponent of a number, the nearest integer is as good as every significand and exponent. -/
theorem IsExponentOf.abs_mul_sub_le {q v : ℚ} {e : Int} {m : Nat} (h : IsExponentOf q e)
    (hm : ∀ k : Int, |(m : ℚ) - q / 2 ^ e| ≤ |k - q / 2 ^ e|) (hv : Fits v) :
    |m * 2 ^ e - q| ≤ |v - q| := by
  have hpow : (0 : ℚ) < 2 ^ e := by positivity
  have hmultiple : ∀ k : Int, |(m : ℚ) * 2 ^ e - q| ≤ |k * 2 ^ e - q| := by
    intro k
    have hk := mul_le_mul_of_nonneg_right (hm k) hpow.le
    rwa [← abs_of_pos hpow, ← abs_mul, ← abs_mul, abs_of_pos hpow, sub_mul, sub_mul,
      div_mul_cancel₀ _ hpow.ne'] at hk
  obtain ⟨s, f, hs, hf, rfl⟩ := hv
  rcases le_or_gt e f with hef | hfe
  · obtain ⟨k, hk⟩ := Int.eq_ofNat_of_zero_le (Int.sub_nonneg_of_le hef)
    obtain rfl : f = e + k := by omega
    have hk := hmultiple (s * 2 ^ k)
    rw [two_zpow_add, ← mul_assoc]
    exact_mod_cast hk
  · -- a number with a smaller exponent is below one of the multiples, and that is below `q`
    have hle : 2 ^ 52 * 2 ^ e ≤ q := h.mul_le.resolve_left (by omega)
    have hv : (s : ℚ) * 2 ^ f ≤ 2 ^ 52 * 2 ^ e :=
      calc (s : ℚ) * 2 ^ f ≤ 2 ^ 53 * 2 ^ f := by
            gcongr
            exact_mod_cast (le_abs_self s).trans hs
        _ = 2 ^ 52 * 2 ^ (f + 1) := by
            rw [zpow_add_one₀ two_ne_zero]
            ring
        _ ≤ 2 ^ 52 * 2 ^ e := by
            gcongr
            · exact one_le_two
            · exact hfe
    have hk := hmultiple (2 ^ 52)
    rw [Int.cast_pow, Int.cast_ofNat, abs_of_nonpos (sub_nonpos.2 hle)] at hk
    rw [abs_of_nonpos (sub_nonpos.2 (hv.trans hle))]
    linarith

namespace Binary64

/-! ### Values -/

/-- The number that a double stands for. -/
def value (x : Binary64) : ℚ :=
  (if x.negative then -1 else 1) * (x.significand * 2 ^ x.exponent)

/-- No denominator is zero. -/
theorem denominator_pos (x : Binary64) : 0 < x.denominator :=
  twoTo_pos _

/-- Numerator and denominator are those of the significand scaled by the exponent. -/
theorem magnitude_eq (x : Binary64) :
    (x.numerator : ℚ) / x.denominator = x.significand * 2 ^ x.exponent := by
  rw [numerator, denominator, two_zpow_eq, Nat.cast_mul, mul_div_assoc]

/-- The value is the signed numerator over the denominator. -/
theorem value_eq_div (x : Binary64) : x.value = x.signedNumerator / x.denominator := by
  rw [value, ← magnitude_eq, signedNumerator]
  split <;> push_cast <;> ring

/-- The comparison of numbers is that of their values. -/
theorem le_iff (x y : Binary64) : x.le y = true ↔ x.value ≤ y.value := by
  have hx : (0 : ℚ) < x.denominator := by exact_mod_cast x.denominator_pos
  have hy : (0 : ℚ) < y.denominator := by exact_mod_cast y.denominator_pos
  rw [value_eq_div, value_eq_div, div_le_div_iff₀ hx hy, le, decide_eq_true_iff]
  exact_mod_cast Iff.rfl

/-- The strict comparison of numbers is that of their values. -/
theorem lt_iff (x y : Binary64) : x.lt y = true ↔ x.value < y.value := by
  rw [lt, Bool.not_eq_true', ← Bool.not_eq_true, le_iff, not_le]

/-- Without a sign the value is the numerator over the denominator. -/
theorem value_of_nonneg {x : Binary64} (hx : x.negative = false) :
    x.value = (x.numerator : ℚ) / x.denominator := by
  simp [value, hx, magnitude_eq]

/-! ### Nearest doubles -/

/-- The value of a number fits. -/
theorem fits_value (x : Binary64) : Fits x.value := by
  obtain ⟨hlt, hle, -⟩ := x.canonical
  have hlt : (x.significand : Int) < 2 ^ 53 := by exact_mod_cast hlt
  refine ⟨(if x.negative then -1 else 1) * x.significand, x.exponent, ?_, hle, ?_⟩
  · rw [abs_le]
    split <;> omega
  · rw [value]
    push_cast
    ring

/-- No number of which 53 binary digits are enough is nearer to `q`, so no double is. -/
def IsNearest (x : Binary64) (q : ℚ) : Prop :=
  ∀ v, Fits v → |x.value - q| ≤ |v - q|

namespace IsNearest

variable {x y : Binary64} {q r v : ℚ}

/-- A number nearest to one that fits has its value. -/
theorem value_eq (h : x.IsNearest q) (hq : Fits q) : x.value = q := by
  have hnear := h q hq
  rw [sub_self, abs_zero] at hnear
  exact sub_eq_zero.1 (abs_nonpos_iff.1 hnear)

/-- A number nearest to another is not above one that fits and is not below the other. -/
theorem value_le (h : x.IsNearest q) (hv : Fits v) (hle : q ≤ v) : x.value ≤ v :=
  ge_of_abs_sub_le (h v hv) hle

/-- Rounding keeps the order, though not a strict one. -/
theorem value_le_value (hx : x.IsNearest q) (hy : y.IsNearest r) (hqr : q < r) :
    x.value ≤ y.value := by
  by_contra! hlt
  -- the middle of the two doubles is then not above `q` and not below `r`
  have hq : y.value + x.value ≤ 2 * q := add_le_of_abs_sub_le (hx _ y.fits_value) hlt
  have hr : 2 * r ≤ x.value + y.value := le_add_of_abs_sub_le (hy _ x.fits_value) hlt
  linarith

end IsNearest

/-! ### What the operations give -/

variable {negative : Bool} {x y : Binary64}

/-- What a fraction is rounded to at its exponent. It can have one digit too many. -/
def rounded (num den : Nat) : Nat :=
  roundHalfEven (num * twoTo (-exponentOf num den).toNat) (den * twoTo (exponentOf num den).toNat)

/-- A significand with its exponent; one of a digit too many is a power of two and is halved. -/
def carry (m : Nat) (e : Int) : Nat × Int :=
  if m = twoTo 53 then (twoTo 52, e + 1) else (m, e)

/-- A carry does not change the value. -/
theorem carry_mul_zpow (m : Nat) (e : Int) :
    ((carry m e).1 : ℚ) * 2 ^ (carry m e).2 = m * 2 ^ e := by
  rw [carry]
  split
  next h =>
    rw [h, cast_twoTo, cast_twoTo, zpow_add_one₀ two_ne_zero]
    ring
  next => rfl

/-- The nearest number to a quotient is put together from the rounded significand and the exponent after
the carry, if both are in range. -/
theorem ofRatio?_eq (hnum : 0 < num) :
    ofRatio? negative num den =
      if h : (carry (rounded num den) (exponentOf num den)).1 < twoTo 53 ∧
          -1074 ≤ (carry (rounded num den) (exponentOf num den)).2 ∧
          (carry (rounded num den) (exponentOf num den)).2 ≤ 971 ∧
          (twoTo 52 ≤ (carry (rounded num den) (exponentOf num den)).1 ∨
            (carry (rounded num den) (exponentOf num den)).2 = -1074) then
        some ⟨negative, _, _, h⟩
      else none := by
  unfold ofRatio?
  rw [if_neg hnum.ne']
  rfl

/-- The nearest number to a quotient has the sign that is given. -/
theorem negative_of_ofRatio? (h : ofRatio? negative num den = some x) : x.negative = negative := by
  rcases Nat.eq_zero_or_pos num with rfl | hnum
  · cases h
    rfl
  · rw [ofRatio?_eq hnum] at h
    split at h
    · cases h
      rfl
    · cases h

/-- The nearest number to a quotient has the magnitude of the rounded significand. -/
theorem magnitude_of_ofRatio? (hnum : 0 < num) (h : ofRatio? negative num den = some x) :
    (x.significand : ℚ) * 2 ^ x.exponent = rounded num den * 2 ^ exponentOf num den := by
  rw [ofRatio?_eq hnum] at h
  split at h
  · cases h
    exact carry_mul_zpow _ _
  · cases h

/-- **Rounding is to a nearest number.** -/
theorem isNearest_of_ofRatio? (hden : 0 < den) (h : ofRatio? false num den = some x) :
    x.IsNearest ((num : ℚ) / den) := by
  have hnegative := negative_of_ofRatio? h
  rcases Nat.eq_zero_or_pos num with rfl | hnum
  · cases h
    intro v _
    simp [value, zero]
  · have hvalue : x.value = rounded num den * 2 ^ exponentOf num den := by
      rw [value, hnegative, magnitude_of_ofRatio? hnum h]
      simp
    have hscale : 0 < den * twoTo (exponentOf num den).toNat := Nat.mul_pos hden (twoTo_pos _)
    intro v hv
    rw [hvalue]
    refine (isExponentOf_exponentOf hnum hden).abs_mul_sub_le (fun k => ?_) hv
    rw [← scaled_eq, rounded]
    exact abs_roundHalfEven_sub_le _ hscale k

/-- A quotient below the sixty-fourth power of two has a nearest number. -/
theorem exists_ofRatio? (negative : Bool) (hden : 0 < den) (hlt : (num : ℚ) / den < 2 ^ 64) :
    ∃ x, ofRatio? negative num den = some x := by
  rcases Nat.eq_zero_or_pos num with rfl | hnum
  · exact ⟨_, rfl⟩
  · have hexponent := isExponentOf_exponentOf hnum hden
    have hscale : 0 < den * twoTo (exponentOf num den).toNat := Nat.mul_pos hden (twoTo_pos _)
    have hpow : (0 : ℚ) < 2 ^ exponentOf num den := by positivity
    have hle : rounded num den ≤ twoTo 53 := by
      refine roundHalfEven_le hscale ?_
      rw [scaled_eq, div_le_iff₀ hpow, cast_twoTo]
      exact hexponent.lt_mul.le
    have hge : exponentOf num den = -1074 ∨ twoTo 52 ≤ rounded num den := by
      refine hexponent.mul_le.imp_right fun h => le_roundHalfEven hscale ?_
      rwa [scaled_eq, le_div_iff₀ hpow, cast_twoTo]
    have hsmall : exponentOf num den ≤ 12 := by
      rcases hexponent.mul_le with h | h
      · omega
      · by_contra! hlarge
        have hpowle : (2 : ℚ) ^ (12 : Int) ≤ 2 ^ exponentOf num den := by
          gcongr
          exact one_le_two
        norm_num at hpowle hlt h
        linarith
    have hleast := hexponent.least_le
    rw [ofRatio?_eq hnum]
    refine ⟨_, dif_pos ?_⟩
    rw [carry]
    split
    · exact ⟨(by decide : twoTo 52 < twoTo 53), by omega, by omega, .inl le_rfl⟩
    · exact ⟨by omega, by omega, by omega, hge.symm⟩

/-- A whole number has no sign. -/
theorem negative_ofNat (n : Nat) : (ofNat n).negative = false := by
  rw [ofNat]
  cases h : ofRatio? false n 1 with
  | none => rfl
  | some x => exact negative_of_ofRatio? h

/-- A natural number of 64 bits becomes a nearest double. -/
theorem isNearest_ofNat {n : Nat} (hn : n < 2 ^ 64) : (ofNat n).IsNearest n := by
  have hone : (n : ℚ) / (1 : Nat) = n := by simp
  have hlt : (n : ℚ) / (1 : Nat) < 2 ^ 64 := by
    rw [hone]
    exact_mod_cast hn
  obtain ⟨x, hx⟩ := exists_ofRatio? false one_pos hlt
  have hnearest := isNearest_of_ofRatio? one_pos hx
  rw [hone] at hnearest
  rwa [ofNat, hx, Option.getD_some]

/-- Whole numbers up to the fifty-third power of two are held exactly. -/
theorem value_ofNat {n : Nat} (hn : n ≤ 2 ^ 53) : (ofNat n).value = n :=
  (isNearest_ofNat (by omega)).value_eq (fits_natCast hn)

/-- Rounding keeps the order of whole numbers. -/
theorem value_ofNat_mono {m n : Nat} (h : m ≤ n) (hn : n < 2 ^ 64) :
    (ofNat m).value ≤ (ofNat n).value := by
  rcases h.eq_or_lt with rfl | hlt
  · exact le_rfl
  · exact (isNearest_ofNat (by omega)).value_le_value (isNearest_ofNat hn) (by exact_mod_cast hlt)

/-- From a number below `2 ^ 53` on, the next one is told apart. -/
theorem value_ofNat_lt {m n : Nat} (h : m < n) (hm : m < 2 ^ 53) (hn : n < 2 ^ 64) :
    (ofNat m).value < (ofNat n).value := by
  have hnext : ((m + 1 : Nat) : ℚ) ≤ (ofNat n).value :=
    value_ofNat hm ▸ value_ofNat_mono h hn
  rw [value_ofNat hm.le]
  push_cast at hnext
  linarith

/-- Of two whole numbers the rounded values are in order exactly if the numbers are and are not rounded
to the same value. -/
theorem value_ofNat_lt_iff {m n : Nat} (hm : m < 2 ^ 64) (hn : n < 2 ^ 64) :
    (ofNat m).value < (ofNat n).value ↔ m < n ∧ (ofNat m).value ≠ (ofNat n).value := by
  constructor
  · intro h
    refine ⟨?_, h.ne⟩
    by_contra! hle
    exact h.not_ge (value_ofNat_mono hle hm)
  · rintro ⟨h, hne⟩
    exact (value_ofNat_mono h.le hn).lt_of_ne hne

/-- A quotient is rounded to a nearest double. -/
theorem exists_div?_isNearest (hx : x.negative = false) (hy : y.negative = false)
    (hpos : 0 < y.value) (hlt : x.value / y.value < 2 ^ 64) :
    ∃ z, x.div? y = some z ∧ z.IsNearest (x.value / y.value) := by
  have hquotient : ((x.numerator * y.denominator : Nat) : ℚ) /
      (x.denominator * y.numerator : Nat) = x.value / y.value := by
    rw [value_of_nonneg hx, value_of_nonneg hy, div_div_div_eq]
    push_cast
    rfl
  have hnumerator : 0 < y.numerator := by
    rw [value_of_nonneg hy] at hpos
    by_contra! hzero
    rw [Nat.le_zero.1 hzero] at hpos
    simp at hpos
  have hden := Nat.mul_pos x.denominator_pos hnumerator
  rw [div?, hx, hy, bne_self_eq_false]
  obtain ⟨z, hz⟩ := exists_ofRatio? false hden (hquotient ▸ hlt)
  exact ⟨z, hz, hquotient ▸ isNearest_of_ofRatio? hden hz⟩

end Binary64

end Preflight.Number

import Preflight.Hooks.Timeout
import Preflight.Proofs.Number.Nearest

/-!
# Timeouts that are whole numbers

The bounds for timeouts and the recommendations are whole numbers, and so are most
timeouts, but they are compared as doubles. Up to `2 ^ 53` that makes no difference, not
even for the tenth of a recommendation, which is rounded. Beyond, no timeout between the
bounds is reported, but one beyond a bound is missed if it becomes the same double as that
bound (`timeoutIssue?_integer`).
-/

set_option autoImplicit false

namespace Preflight.Hooks

open Preflight.Number

/-! ### In exact arithmetic -/

def rangeIssue (rules : HookRules) (t : Nat) (location : Location) : Diagnostic :=
  .error .range
    s!"timeout {t} is outside the allowed range [{rules.minTimeout.toNat}, {rules.maxTimeout.toNat}] seconds"
    location

def farBelowIssue (lifecycle : String) (t : Nat) (recommended : UInt64) (location : Location) :
    Diagnostic :=
  .warning .advisory
    s!"timeout {t}s is far below the {recommended.toNat}s recommended for {lifecycle}" location

/-- A warning if ten times a number of seconds is still less than what is recommended. -/
def tenthIssue? (rules : HookRules) (lifecycle : String) (t : Nat) (location : Location) :
    Option Diagnostic :=
  match rules.recommendedTimeout? lifecycle with
  | none => none
  | some recommended =>
    if 10 * t < recommended.toNat then some (farBelowIssue lifecycle t recommended location)
    else none

/-- What there is to say about a number of seconds if nothing is rounded. -/
def wholeIssue? (rules : HookRules) (lifecycle : String) (t : Nat) (location : Location) :
    Option Diagnostic :=
  if t < rules.minTimeout.toNat ∨ rules.maxTimeout.toNat < t then
    some (rangeIssue rules t location)
  else tenthIssue? rules lifecycle t location

/-! ### The bounds -/

variable {rules : HookRules} {lifecycle : String} {t : Nat}

/-- A number of seconds is not allowed exactly if its value is out of the bounds, all three rounded. -/
theorem isAllowed_eq_false_iff {seconds : Binary64} :
    isAllowed rules seconds = false ↔ seconds.value < (ofBound rules.minTimeout).value ∨
      (ofBound rules.maxTimeout).value < seconds.value := by
  rw [isAllowed, Bool.and_eq_false_iff, ← Bool.not_eq_true, ← Bool.not_eq_true, Binary64.le_iff,
    Binary64.le_iff, not_le, not_le]

/-- A whole number is not allowed exactly if it is out of a bound and not rounded to the same value as
the bound. -/
theorem isAllowed_ofNat_eq_false_iff (ht : t < 2 ^ 64) :
    isAllowed rules (.ofNat t) = false ↔
      t < rules.minTimeout.toNat ∧
          (Binary64.ofNat t).value ≠ (ofBound rules.minTimeout).value ∨
        rules.maxTimeout.toNat < t ∧
          (ofBound rules.maxTimeout).value ≠ (Binary64.ofNat t).value := by
  rw [isAllowed_eq_false_iff, ofBound, ofBound,
    Binary64.value_ofNat_lt_iff ht rules.minTimeout.toNat_lt,
    Binary64.value_ofNat_lt_iff rules.maxTimeout.toNat_lt ht]

/-- With bounds that are held exactly, a whole number is not allowed exactly if it is out of them. -/
theorem isAllowed_ofNat_eq_false_iff_of_le (ht : t < 2 ^ 64)
    (hmin : rules.minTimeout.toNat ≤ 2 ^ 53) (hmax : rules.maxTimeout.toNat < 2 ^ 53) :
    isAllowed rules (.ofNat t) = false ↔
      t < rules.minTimeout.toNat ∨ rules.maxTimeout.toNat < t := by
  rw [isAllowed_ofNat_eq_false_iff ht]
  refine or_congr (and_iff_left_of_imp fun h => ?_) (and_iff_left_of_imp fun h => ?_)
  · exact (Binary64.value_ofNat_lt h (by omega) (by omega)).ne
  · exact (Binary64.value_ofNat_lt h hmax ht).ne

/-! ### The tenth of a recommendation -/

/-- The tenth of a recommendation is the number nearest to the tenth of its rounded value. -/
theorem exists_tenth (recommended : UInt64) :
    ∃ q, (ofBound recommended).div? (.ofNat 10) = some q ∧
      q.IsNearest ((ofBound recommended).value / 10) := by
  have hten : (Binary64.ofNat 10).value = 10 := Binary64.value_ofNat (by decide)
  have hlt : (ofBound recommended).value ≤ 2 ^ 64 := by
    refine (Binary64.isNearest_ofNat recommended.toNat_lt).value_le ⟨1, 64, by decide, by decide, ?_⟩ ?_
    · norm_num
    · exact_mod_cast recommended.toNat_lt.le
  rw [← hten]
  refine Binary64.exists_div?_isNearest (Binary64.negative_ofNat _) (Binary64.negative_ofNat _) ?_ ?_
  · norm_num [hten]
  · rw [hten]
    linarith

/-- A rounded tenth is not above a number that the tenth is not above. -/
theorem value_le_of_tenth_le {q : Binary64} {r : Nat} (h : q.IsNearest (r / 10))
    (hr : r ≤ 2 ^ 53) (ht : t < 2 ^ 64) (hle : r ≤ 10 * t) :
    q.value ≤ (Binary64.ofNat t).value := by
  have hle : (r : ℚ) / 10 ≤ (min t (2 ^ 53) : Nat) := by
    rw [div_le_iff₀ (by norm_num)]
    exact_mod_cast (by omega : r ≤ min t (2 ^ 53) * 10)
  calc q.value ≤ (min t (2 ^ 53) : Nat) := h.value_le (fits_natCast (min_le_right ..)) hle
    _ = (Binary64.ofNat (min t (2 ^ 53))).value := (Binary64.value_ofNat (min_le_right ..)).symm
    _ ≤ (Binary64.ofNat t).value := Binary64.value_ofNat_mono (min_le_left ..) ht

/-- A rounded tenth is above a number that the tenth is above: the tenth is a tenth of a second
above it, and an eighth of a second above it is a double. -/
theorem lt_value_of_lt_tenth {q : Binary64} {r : Nat} (h : q.IsNearest (r / 10))
    (hr : r ≤ 2 ^ 53) (hlt : 10 * t < r) : (t : ℚ) < q.value := by
  have hgap : (t : ℚ) + 1 / 10 ≤ r / 10 := by
    rw [le_div_iff₀ (by norm_num)]
    have hlt : (10 * t + 1 : ℚ) ≤ r := by exact_mod_cast hlt
    linarith
  have heighth : Fits (t + 1 / 8) := by
    refine ⟨8 * t + 1, -3, ?_, by decide, ?_⟩
    · rw [abs_le]
      omega
    · push_cast
      norm_num
      ring
  by_contra! hle
  have hadd := le_add_of_abs_sub_le (h _ heighth) (by linarith)
  linarith

/-- For a recommendation that is held exactly, a whole number is far below it exactly if it is below its
tenth. -/
theorem isFarBelow_ofNat_iff {recommended : UInt64} (hr : recommended.toNat ≤ 2 ^ 53)
    (ht : t < 2 ^ 64) :
    isFarBelow recommended (.ofNat t) = true ↔ 10 * t < recommended.toNat := by
  obtain ⟨q, hq, hnearest⟩ := exists_tenth recommended
  rw [ofBound, Binary64.value_ofNat hr] at hnearest
  rw [isFarBelow, hq, Option.any_some, Binary64.lt_iff]
  constructor
  · intro hlt
    by_contra! hle
    exact hlt.not_ge (value_le_of_tenth_le hnearest hr ht hle)
  · intro hlt
    rw [Binary64.value_ofNat (by omega)]
    exact lt_value_of_lt_tenth hnearest hr hlt

/-! ### The whole check -/

/-- The check of a whole number compares it with the bounds and then with the recommendation. -/
theorem timeoutIssue?_eq (action : Location) :
    timeoutIssue? rules lifecycle (some (.number (.integer t))) action =
      if isAllowed rules (.ofNat t) then
        match rules.recommendedTimeout? lifecycle with
        | none => none
        | some recommended =>
          if isFarBelow recommended (.ofNat t) then
            some (farBelowIssue lifecycle t recommended (action.atField "timeout"))
          else none
      else some (rangeIssue rules t (action.atField "timeout")) := by
  have htext : Json.Number.text (.integer t) = toString t := rfl
  have hvalue : Json.Number.toBinary64 (.integer t) = .ofNat t := by
    simp [Json.Number.toBinary64]
  simp only [timeoutIssue?, secondsIssue?, htext, hvalue, rangeIssue, farBelowIssue]
  rfl

/-- A whole number that is allowed is compared with the tenth of the recommendation, without rounding.
-/
theorem timeoutIssue?_of_allowed (ht : t < 2 ^ 64)
    (hr : ∀ r, rules.recommendedTimeout? lifecycle = some r → r.toNat ≤ 2 ^ 53)
    (hallowed : isAllowed rules (.ofNat t) = true) (action : Location) :
    timeoutIssue? rules lifecycle (some (.number (.integer t))) action =
      tenthIssue? rules lifecycle t (action.atField "timeout") := by
  rw [timeoutIssue?_eq, if_pos hallowed, tenthIssue?]
  cases hrecommended : rules.recommendedTimeout? lifecycle with
  | none => rfl
  | some r => simp only [isFarBelow_ofNat_iff (hr r hrecommended) ht]

/-- The range is complained about exactly for the whole numbers that are not allowed. -/
theorem timeoutIssue?_eq_rangeIssue_iff (action : Location) :
    timeoutIssue? rules lifecycle (some (.number (.integer t))) action =
        some (rangeIssue rules t (action.atField "timeout")) ↔
      isAllowed rules (.ofNat t) = false := by
  rw [timeoutIssue?_eq]
  cases isAllowed rules (.ofNat t) with
  | false => simp
  | true =>
    -- what is said beside the bounds is no error
    rw [if_pos rfl]
    split
    · simp
    · split <;> simp [rangeIssue, farBelowIssue, Diagnostic.error, Diagnostic.warning]

/-- **What is reported about a whole number of seconds.** The error is given exactly for the
numbers beyond a bound that do not become the same double as that bound. For a number without
the error and a recommendation of at most `2 ^ 53`, the warning is given exactly below a tenth
of the recommendation. With a least bound of at most `2 ^ 53` and a greatest bound below it,
nothing differs from exact arithmetic. -/
theorem timeoutIssue?_integer (rules : HookRules) (lifecycle : String) (t : Nat)
    (ht : t < 2 ^ 64) (action : Location) :
    (timeoutIssue? rules lifecycle (some (.number (.integer t))) action =
        some (rangeIssue rules t (action.atField "timeout")) ↔
      t < rules.minTimeout.toNat ∧
          (Binary64.ofNat t).value ≠ (ofBound rules.minTimeout).value ∨
        rules.maxTimeout.toNat < t ∧
          (ofBound rules.maxTimeout).value ≠ (Binary64.ofNat t).value) ∧
    ((∀ r, rules.recommendedTimeout? lifecycle = some r → r.toNat ≤ 2 ^ 53) →
      timeoutIssue? rules lifecycle (some (.number (.integer t))) action =
          some (rangeIssue rules t (action.atField "timeout")) ∨
        timeoutIssue? rules lifecycle (some (.number (.integer t))) action =
          tenthIssue? rules lifecycle t (action.atField "timeout")) ∧
    (rules.minTimeout.toNat ≤ 2 ^ 53 → rules.maxTimeout.toNat < 2 ^ 53 →
      (∀ r, rules.recommendedTimeout? lifecycle = some r → r.toNat ≤ 2 ^ 53) →
      timeoutIssue? rules lifecycle (some (.number (.integer t))) action =
        wholeIssue? rules lifecycle t (action.atField "timeout")) := by
  refine ⟨?_, fun hr => ?_, fun hmin hmax hr => ?_⟩
  · rw [timeoutIssue?_eq_rangeIssue_iff, isAllowed_ofNat_eq_false_iff ht]
  · cases hallowed : isAllowed rules (.ofNat t) with
    | false => exact .inl ((timeoutIssue?_eq_rangeIssue_iff action).2 hallowed)
    | true => exact .inr (timeoutIssue?_of_allowed ht hr hallowed action)
  · have hbounds := isAllowed_ofNat_eq_false_iff_of_le ht hmin hmax
    rw [wholeIssue?]
    cases hallowed : isAllowed rules (.ofNat t) with
    | false =>
      rw [if_pos (hbounds.1 hallowed)]
      exact (timeoutIssue?_eq_rangeIssue_iff action).2 hallowed
    | true =>
      rw [if_neg (by simp [← hbounds, hallowed])]
      exact timeoutIssue?_of_allowed ht hr hallowed action

/-- The default rules with other bounds and only a recommendation for `Stop`. -/
def rulesWithin (least greatest recommended : UInt64) : HookRules :=
  { HookRules.default with
    minTimeout := least
    maxTimeout := greatest
    recommendedTimeouts := Table.ofList [("Stop", recommended)] }

/-- At the largest bounds and the largest recommendation that are kept apart from all others. -/
theorem timeoutIssue?_integer_of_largest :
    timeoutIssue? (rulesWithin 1 9007199254740991 9007199254740992) "Stop"
        (some (.number (.integer 9007199254740993))) (.ofSource "project") =
      some (.error .range
        "timeout 9007199254740993 is outside the allowed range [1, 9007199254740991] seconds"
        ((Location.ofSource "project").atField "timeout")) ∧
    timeoutIssue? (rulesWithin 1 9007199254740991 9007199254740992) "Stop"
        (some (.number (.integer 900719925474099))) (.ofSource "project") =
      some (.warning .advisory
        "timeout 900719925474099s is far below the 9007199254740992s recommended for Stop"
        ((Location.ofSource "project").atField "timeout")) ∧
    timeoutIssue? (rulesWithin 1 9007199254740991 9007199254740992) "Stop"
        (some (.number (.integer 900719925474100))) (.ofSource "project") = none := by
  have hrecommended : ∀ r,
      (rulesWithin 1 9007199254740991 9007199254740992).recommendedTimeout? "Stop" = some r →
        r.toNat ≤ 2 ^ 53 := by
    have hsome : (rulesWithin 1 9007199254740991 9007199254740992).recommendedTimeout? "Stop" =
        some 9007199254740992 := by decide +kernel
    intro r hr
    cases hsome.symm.trans hr
    decide
  have hexact := fun t ht =>
    (timeoutIssue?_integer (rulesWithin 1 9007199254740991 9007199254740992) "Stop" t ht
      (.ofSource "project")).2.2 (by decide) (by decide) hrecommended
  exact ⟨(hexact 9007199254740993 (by decide)).trans (by decide +kernel),
    (hexact 900719925474099 (by decide)).trans (by decide +kernel),
    (hexact 900719925474100 (by decide)).trans (by decide +kernel)⟩

/-- Beyond `2 ^ 53` a timeout over the greatest bound, one under the least bound and one below a
tenth of what is recommended are missed, and one of exactly a tenth is reported. -/
theorem timeoutIssue?_integer_rounded :
    (timeoutIssue? (rulesWithin 1 9007199254740992 60) "Stop"
        (some (.number (.integer 9007199254740993))) (.ofSource "project") = none ∧
      wholeIssue? (rulesWithin 1 9007199254740992 60) "Stop" 9007199254740993
          ((Location.ofSource "project").atField "timeout") =
        some (.error .range
          "timeout 9007199254740993 is outside the allowed range [1, 9007199254740992] seconds"
          ((Location.ofSource "project").atField "timeout"))) ∧
    (timeoutIssue? (rulesWithin 9007199254740993 9007199254740993 60) "Stop"
        (some (.number (.integer 9007199254740992))) (.ofSource "project") = none ∧
      wholeIssue? (rulesWithin 9007199254740993 9007199254740993 60) "Stop" 9007199254740992
          ((Location.ofSource "project").atField "timeout") =
        some (.error .range
          "timeout 9007199254740992 is outside the allowed range [9007199254740993, 9007199254740993] seconds"
          ((Location.ofSource "project").atField "timeout"))) ∧
    (timeoutIssue? (rulesWithin 1 9007199254740992 9007199254741001) "Stop"
        (some (.number (.integer 900719925474100))) (.ofSource "project") = none ∧
      wholeIssue? (rulesWithin 1 9007199254740992 9007199254741001) "Stop" 900719925474100
          ((Location.ofSource "project").atField "timeout") =
        some (.warning .advisory
          "timeout 900719925474100s is far below the 9007199254741001s recommended for Stop"
          ((Location.ofSource "project").atField "timeout"))) ∧
    timeoutIssue? (rulesWithin 1 9007199254740992 18014398509481990) "Stop"
        (some (.number (.integer 1801439850948199))) (.ofSource "project") =
      some (.warning .advisory
        "timeout 1801439850948199s is far below the 18014398509481990s recommended for Stop"
        ((Location.ofSource "project").atField "timeout")) ∧
      wholeIssue? (rulesWithin 1 9007199254740992 18014398509481990) "Stop" 1801439850948199
          ((Location.ofSource "project").atField "timeout") = none := by
  decide +kernel

end Preflight.Hooks

import Mathlib.Data.List.Basic
import Preflight.Text.Ascii

/-!
# Decimal digits

The digits of a number denote it (`decimalValue_toDigits`) and have no leading zero
(`length_toDigits_of_head?`). Where a text goes on with something else than a digit, they
are all its digits at the start.
-/

set_option autoImplicit false

namespace Preflight.Text

/-- The digits of a number have it as their value. -/
theorem decimalValue_toDigits (n : Nat) : decimalValue (Nat.toDigits 10 n) = n := by
  have hvalue := Nat.ofDigitChars_ten_toDigits (n := n)
  rwa [Nat.ofDigitChars_eq_foldl] at hvalue

/-- The digits of a number are ASCII digits. -/
theorem isAsciiDigit_of_mem_toDigits {n : Nat} {c : Char} (h : c ∈ Nat.toDigits 10 n) :
    isAsciiDigit c = true := by
  have hdigit := Nat.isDigit_of_mem_toDigits (by decide) (by decide) h
  simpa [isAsciiDigit, Char.isDigit, Char.le_def] using hdigit

/-- Only zero starts with a zero. -/
theorem eq_zero_of_head?_toDigits {n : Nat} (h : (Nat.toDigits 10 n).head? = some '0') : n = 0 := by
  induction n using Nat.strongRecOn with
  | ind n ih =>
    by_cases hn : n < 10
    · rw [Nat.toDigits_of_lt_base hn, List.head?_cons, Option.some.injEq,
        Nat.digitChar_eq_zero] at h
      exact h
    · rw [Nat.toDigits_of_base_le (by decide) (Nat.le_of_not_lt hn),
        List.head?_append_of_ne_nil _ Nat.toDigits_ne_nil] at h
      have hzero := ih (n / 10) (by omega) h
      omega

/-- A number that is written with a zero at its start has one digit. -/
theorem length_toDigits_of_head? {n : Nat} (h : (Nat.toDigits 10 n).head? = some '0') :
    (Nat.toDigits 10 n).length = 1 := by
  rw [eq_zero_of_head?_toDigits h]
  rfl

/-- A text that does not go on with a character of a class. -/
def Stops (p : Char → Bool) (rest : List Char) : Prop :=
  ∀ c ∈ rest.head?, p c = false

/-- Anything stops at the end of a text. -/
theorem stops_nil (p : Char → Bool) : Stops p [] := by
  simp [Stops]

instance (p : Char → Bool) (rest : List Char) : Decidable (Stops p rest) :=
  match rest with
  | [] => .isTrue (stops_nil p)
  | c :: _ => decidable_of_decidable_of_iff (p := p c = false) (by simp [Stops])

/-- Taking characters goes no further into what stops it. -/
theorem takeWhile_append_stops {p : Char → Bool} (s : List Char) {rest : List Char}
    (hrest : Stops p rest) : (s ++ rest).takeWhile p = s.takeWhile p := by
  induction s with
  | nil =>
    cases rest with
    | nil => rfl
    | cons c rest => exact List.takeWhile_cons_of_neg (by simp [hrest c rfl])
  | cons c s ih => rw [List.cons_append, List.takeWhile_cons, List.takeWhile_cons, ih]

/-- Dropping characters goes no further into what stops it. -/
theorem dropWhile_append_stops {p : Char → Bool} (s : List Char) {rest : List Char}
    (hrest : Stops p rest) : (s ++ rest).dropWhile p = s.dropWhile p ++ rest := by
  induction s with
  | nil =>
    cases rest with
    | nil => rfl
    | cons c rest => exact List.dropWhile_cons_of_neg (by simp [hrest c rfl])
  | cons c s ih =>
    rw [List.cons_append, List.dropWhile_cons, List.dropWhile_cons, ih]
    split
    · rfl
    · rfl

/-- Characters that are all taken are taken up to what stops it. -/
theorem takeWhile_append_of_stops {p : Char → Bool} {s rest : List Char} (hs : ∀ c ∈ s, p c = true)
    (hrest : Stops p rest) : (s ++ rest).takeWhile p = s := by
  rw [List.takeWhile_append_of_pos hs]
  cases rest with
  | nil => simp
  | cons c rest => simp [hrest c rfl]

/-- Characters that are all dropped are dropped up to what stops it. -/
theorem dropWhile_append_of_stops {p : Char → Bool} {s rest : List Char} (hs : ∀ c ∈ s, p c = true)
    (hrest : Stops p rest) : (s ++ rest).dropWhile p = rest := by
  rw [List.dropWhile_append_of_pos hs]
  cases rest with
  | nil => rfl
  | cons c rest => exact List.dropWhile_cons_of_neg (by simp [hrest c rfl])

end Preflight.Text

/-!
# Computations that may fail

What a computation of several steps gives is given by its steps: by the second step for what
the first one gives (`bind_eq_ok_iff`), and by the same step for each element of a list
(`mapM_eq_some_iff`).
-/

set_option autoImplicit false

namespace Preflight

/-- If two computations in a row succeed, so does the first, and the second on its result. -/
theorem exists_of_bind_eq_ok {ε α β : Type} {m : Except ε α} {k : α → Except ε β} {b : β}
    (h : m >>= k = .ok b) : ∃ a, m = .ok a ∧ k a = .ok b := by
  cases m with
  | error e => cases h
  | ok a => exact ⟨a, rfl, h⟩

/-- Two computations in a row succeed exactly if the first does and the second on its result. -/
theorem bind_eq_ok_iff {ε α β : Type} {m : Except ε α} {k : α → Except ε β} {b : β} :
    m >>= k = .ok b ↔ ∃ a, m = .ok a ∧ k a = .ok b := by
  constructor
  · exact exists_of_bind_eq_ok
  · rintro ⟨a, rfl, h⟩
    exact h

/-- A value that is returned is the result. -/
theorem pure_eq_ok_iff {ε α : Type} {a b : α} : (pure a : Except ε α) = .ok b ↔ a = b := by
  simp [pure, Except.pure]

/-- All of a list is read exactly if it is what is written for the list that is read. -/
theorem mapM_eq_some_iff {α β : Type} {read? : α → Option β} {write : β → α}
    (h : ∀ a b, read? a = some b ↔ a = write b) {as : List α} {bs : List β} :
    as.mapM read? = some bs ↔ as = bs.map write := by
  induction as generalizing bs with
  | nil => cases bs <;> simp
  | cons a as ih =>
    cases bs with
    | nil => simp [Option.bind_eq_some_iff]
    | cons b bs => simp [Option.bind_eq_some_iff, h, ih]

end Preflight

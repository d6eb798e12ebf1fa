import Mathlib.Data.List.DropRight
import Preflight.Text.Blank

/-!
# What trimming keeps

Trimming cuts blanks off the two ends of a text and touches nothing between them.
A text is its own trim exactly if it neither starts nor ends with a blank
(`trim_eq_self_iff`); blanks put at an end of a text do not change its trim
(`trim_cons_of_isBlank`, `trim_append_blank`); and a text that is not blank at its
first character is trimmed at its end only.
-/

set_option autoImplicit false

namespace Preflight.Text

section DropEnd

variable {α : Type} {p : α → Bool}

/-- One more element at the end is dropped if it satisfies `p` and stops the dropping otherwise. -/
theorem dropEndWhile_concat (l : List α) (x : α) :
    dropEndWhile p (l ++ [x]) = if p x then dropEndWhile p l else l ++ [x] := by
  induction l with
  | nil => simp [dropEndWhile]
  | cons a l ih =>
    rw [List.cons_append, dropEndWhile, ih]
    by_cases hx : p x
    · simp [hx, dropEndWhile]
    · cases l <;> simp [hx]

/-- Dropping at the end by recursion is dropping at the start of the reversed list. -/
theorem dropEndWhile_eq_rdropWhile (l : List α) : dropEndWhile p l = l.rdropWhile p := by
  induction l using List.reverseRecOn with
  | nil => simp [dropEndWhile]
  | append_singleton l x ih => rw [dropEndWhile_concat, List.rdropWhile_concat, ih]

/-- What is dropped at the end satisfies `p`, and nothing else is changed. -/
theorem exists_dropEndWhile_append (p : α → Bool) (l : List α) :
    ∃ r, l = dropEndWhile p l ++ r ∧ ∀ a ∈ r, p a = true := by
  refine ⟨l.rtakeWhile p, ?_, fun a ha => List.mem_rtakeWhile_imp ha⟩
  rw [dropEndWhile_eq_rdropWhile, List.rdropWhile_append_rtakeWhile]

/-- Dropping at the end leaves part of a list. -/
theorem dropEndWhile_sublist (p : α → Bool) (l : List α) : (dropEndWhile p l).Sublist l := by
  rw [dropEndWhile_eq_rdropWhile]
  exact (List.rdropWhile_prefix p l).sublist

/-- Elements at the end that all satisfy `p` make no difference. -/
theorem dropEndWhile_append_of_all (l : List α) {r : List α} (hr : ∀ a ∈ r, p a = true) :
    dropEndWhile p (l ++ r) = dropEndWhile p l := by
  induction r using List.reverseRecOn with
  | nil => rw [List.append_nil]
  | append_singleton r x ih =>
    rw [← List.append_assoc, dropEndWhile_concat, if_pos (hr x (by simp))]
    exact ih fun a ha => hr a (List.mem_append_left _ ha)

/-- Dropping at the end goes no further than an entry that stays. -/
theorem dropEndWhile_append_cons (l : List α) {a : α} (ha : p a = false) (r : List α) :
    dropEndWhile p (l ++ a :: r) = l ++ a :: dropEndWhile p r := by
  induction r using List.reverseRecOn with
  | nil => rw [dropEndWhile_concat, ha]; simp [dropEndWhile]
  | append_singleton r x ih =>
    rw [← List.cons_append, ← List.append_assoc, dropEndWhile_concat, dropEndWhile_concat, ih]
    by_cases hx : p x <;> simp [hx]

end DropEnd

/-! ### Trimming at the end -/

/-- Blanks at the end are trimmed. -/
theorem trimEnd_append_blank (s : List Char) {r : List Char} (hr : ∀ c ∈ r, isBlank c = true) :
    trimEnd (s ++ r) = trimEnd s :=
  dropEndWhile_append_of_all s hr

/-- Nothing is trimmed ahead of a character that is no blank. -/
theorem trimEnd_append_cons (s : List Char) {c : Char} (hc : isBlank c = false) (r : List Char) :
    trimEnd (s ++ c :: r) = s ++ c :: trimEnd r :=
  dropEndWhile_append_cons s hc r

/-- A first character that is no blank is not trimmed at the end. -/
theorem trimEnd_cons {c : Char} (hc : isBlank c = false) (r : List Char) :
    trimEnd (c :: r) = c :: trimEnd r :=
  trimEnd_append_cons [] hc r

/-- What is trimmed at the end are blanks. -/
theorem exists_trimEnd_append (s : List Char) :
    ∃ r, s = trimEnd s ++ r ∧ ∀ c ∈ r, isBlank c = true :=
  exists_dropEndWhile_append isBlank s

/-- Trimming at the end leaves part of a text. -/
theorem trimEnd_sublist (s : List Char) : (trimEnd s).Sublist s :=
  dropEndWhile_sublist isBlank s

/-- Nothing is trimmed at the end exactly if the last character is no blank. -/
theorem trimEnd_eq_self_iff (s : List Char) :
    trimEnd s = s ↔ ∀ c, s.getLast? = some c → isBlank c = false := by
  rw [trimEnd, dropEndWhile_eq_rdropWhile, List.rdropWhile_eq_self_iff]
  constructor
  · intro h c hc
    obtain ⟨l, rfl⟩ := List.getLast?_eq_some_iff.1 hc
    simpa using h (by simp)
  · intro h hne
    simpa using h _ (List.getLast?_eq_some_getLast hne)

/-! ### Trimming at both ends -/

/-- A blank at the start is trimmed. -/
theorem trim_cons_of_isBlank {c : Char} (hc : isBlank c = true) (s : List Char) :
    trim (c :: s) = trim s := by
  rw [trim, trim, trimStart, trimStart, List.dropWhile_cons_of_pos hc]

/-- Blanks at the start make no difference. -/
theorem trim_blank_append {r : List Char} (hr : ∀ c ∈ r, isBlank c = true) (s : List Char) :
    trim (r ++ s) = trim s := by
  induction r with
  | nil => rfl
  | cons c r ih =>
    obtain ⟨hc, hr⟩ := List.forall_mem_cons.1 hr
    rw [List.cons_append, trim_cons_of_isBlank hc, ih hr]

/-- Blanks at the end are trimmed, whatever is trimmed at the start. -/
theorem trim_append_blank (s : List Char) {r : List Char} (hr : ∀ c ∈ r, isBlank c = true) :
    trim (s ++ r) = trim s := by
  rw [trim, trim, trimStart, trimStart, List.dropWhile_append]
  split
  · rename_i hs
    rw [List.isEmpty_iff.1 hs, List.dropWhile_eq_nil_iff.2 hr]
  · exact trimEnd_append_blank _ hr

/-- A text that does not start with a blank is trimmed at its end alone. -/
theorem trim_cons {c : Char} (hc : isBlank c = false) (r : List Char) :
    trim (c :: r) = c :: trimEnd r := by
  rw [trim, trimStart, List.dropWhile_cons_of_neg (by simp [hc]), trimEnd_cons hc]

/-- A text between two characters that are not blank is its own trim. -/
theorem trim_cons_concat {c d : Char} (hc : isBlank c = false) (hd : isBlank d = false)
    (s : List Char) : trim (c :: (s ++ [d])) = c :: (s ++ [d]) := by
  rw [trim_cons hc, trimEnd_append_cons s hd]
  rfl

/-- What trimming at the start leaves is empty or starts with a character that is not blank. -/
theorem trimStart_cases (s : List Char) :
    trimStart s = [] ∨ ∃ c r, trimStart s = c :: r ∧ isBlank c = false := by
  cases h : trimStart s with
  | nil => exact .inl rfl
  | cons c r =>
    have hc := List.head?_dropWhile_not isBlank s
    rw [show s.dropWhile isBlank = c :: r from h] at hc
    exact .inr ⟨c, r, rfl, by simpa using hc⟩

/-- Trimming leaves nothing of a text exactly if all of it is blank. -/
theorem trim_eq_nil_iff (s : List Char) : trim s = [] ↔ ∀ c ∈ s, isBlank c = true := by
  rw [← List.dropWhile_eq_nil_iff, ← trimStart, trim]
  rcases trimStart_cases s with h | ⟨c, r, h, hc⟩
  · rw [h]
    simp [trimEnd, dropEndWhile]
  · rw [h, trimEnd_cons hc]
    simp

/-- What trimming leaves stands in the text as it is. -/
theorem trim_isInfix (s : List Char) : trim s <:+: s := by
  have hend : trim s <+: trimStart s := by
    rw [trim, trimEnd, dropEndWhile_eq_rdropWhile]
    exact List.rdropWhile_prefix isBlank (trimStart s)
  exact hend.isInfix.trans (List.dropWhile_suffix isBlank).isInfix

/-- Trimming leaves part of a text. -/
theorem trim_sublist (s : List Char) : (trim s).Sublist s :=
  (trim_isInfix s).sublist

/-- A trimmed text is trimmed. -/
theorem trim_trim (s : List Char) : trim (trim s) = trim s := by
  have hend (r : List Char) : trimEnd (trimEnd r) = trimEnd r := by
    rw [trimEnd, trimEnd, dropEndWhile_eq_rdropWhile, dropEndWhile_eq_rdropWhile,
      List.rdropWhile_idempotent]
  rcases trimStart_cases s with h | ⟨c, r, h, hc⟩
  · have htrim : trim s = [] := by
      rw [trim, h]
      rfl
    rw [htrim]
    rfl
  · have htrim : trim s = c :: trimEnd r := by rw [trim, h, trimEnd_cons hc]
    rw [htrim, trim_cons hc, hend]

/-- A character that is not blank occurs as often in the trim. -/
theorem count_trim {c : Char} (hc : isBlank c = false) (s : List Char) :
    (trim s).count c = s.count c := by
  have hnone {r : List Char} (hr : ∀ d ∈ r, isBlank d = true) : r.count c = 0 := by
    rw [List.count_eq_zero]
    intro hmem
    rw [hr c hmem] at hc
    exact absurd hc (by decide)
  obtain ⟨r, hstart, hr⟩ := exists_trimEnd_append (trimStart s)
  calc (trim s).count c
      = (trimEnd (trimStart s) ++ r).count c := by rw [List.count_append, hnone hr, trim]; rfl
    _ = (s.takeWhile isBlank ++ s.dropWhile isBlank).count c := by
        rw [← hstart, List.count_append, hnone fun d hd => List.mem_takeWhile_imp hd, trimStart,
          Nat.zero_add]
    _ = s.count c := by rw [List.takeWhile_append_dropWhile]

/-- A text is its own trim exactly if it neither starts nor ends with a blank. -/
theorem trim_eq_self_iff (s : List Char) :
    trim s = s ↔ (∀ c, s.head? = some c → isBlank c = false) ∧
      ∀ c, s.getLast? = some c → isBlank c = false := by
  cases s with
  | nil => simp [trim, trimStart, trimEnd, dropEndWhile]
  | cons d r =>
    by_cases hd : isBlank d = true
    · have hlen : (trim (d :: r)).length ≤ r.length := by
        rw [trim_cons_of_isBlank hd]
        exact (trim_sublist r).length_le
      constructor
      · intro h
        rw [h, List.length_cons] at hlen
        omega
      · intro h
        rw [h.1 d rfl] at hd
        exact absurd hd (by decide)
    · rw [Bool.not_eq_true] at hd
      rw [trim_cons hd, ← trimEnd_cons hd, trimEnd_eq_self_iff]
      constructor
      · intro h
        refine ⟨?_, h⟩
        intro c hc
        rw [List.head?_cons, Option.some.injEq] at hc
        exact hc ▸ hd
      · intro h
        exact h.2

end Preflight.Text

import Preflight.Text.Substring

/-!
# What replacing does

Replacing works off a text from the left: where the part starts, it is replaced
and passed over as a whole (`replaceAll_append`); where it does not, one character
is kept (`replaceAll_cons`). If what is written is itself part of what it
replaces, the result is part of the text (`replaceAll_sublist`); and a character that
is written as often as it is replaced occurs as often as before (`count_replaceAll`).
-/

set_option autoImplicit false

namespace Preflight.Text

variable {part new : List Char}

/-- A scan skips the part that has just been replaced. -/
theorem replaceScan_length_append (l rest : List Char) :
    replaceScan part new l.length (l ++ rest) = replaceScan part new 0 rest := by
  induction l with
  | nil => rfl
  | cons c l ih => simpa [replaceScan] using ih

/-- A character at which the part does not start is kept. -/
theorem replaceAll_cons {c : Char} {rest : List Char} (h : part.isPrefixOf (c :: rest) = false) :
    replaceAll part new (c :: rest) = c :: replaceAll part new rest := by
  simp [replaceAll, replaceScan, h]

/-- A part at the start is replaced. -/
theorem replaceAll_append (h : part ≠ []) (rest : List Char) :
    replaceAll part new (part ++ rest) = new ++ replaceAll part new rest := by
  obtain ⟨c, l, rfl⟩ := List.exists_cons_of_ne_nil h
  have hstart : (c :: l).isPrefixOf (c :: (l ++ rest)) = true :=
    List.isPrefixOf_iff_prefix.2 ⟨rest, rfl⟩
  rw [replaceAll, List.cons_append, replaceScan, if_pos hstart, List.length_cons,
    Nat.add_sub_cancel, replaceScan_length_append, replaceAll]

/-- The scan writes a part of what it has not passed over yet. -/
theorem replaceScan_sublist (h : new.Sublist part) (skip : Nat) (s : List Char) :
    (replaceScan part new skip s).Sublist (s.drop skip) := by
  induction s generalizing skip with
  | nil => simp [replaceScan]
  | cons c rest ih =>
    cases skip with
    | succ skip => exact ih skip
    | zero =>
      rw [replaceScan, List.drop_zero]
      by_cases hstart : part.isPrefixOf (c :: rest) = true
      · rw [if_pos hstart]
        obtain ⟨t, ht⟩ := List.isPrefixOf_iff_prefix.1 hstart
        cases part with
        | nil =>
          obtain rfl := List.sublist_nil.1 h
          exact (ih 0).trans (List.sublist_cons_self c rest)
        | cons d l =>
          rw [← ht]
          refine h.append ?_
          have hrest : rest = l ++ t := by
            rw [List.cons_append, List.cons.injEq] at ht
            exact ht.2.symm
          have hscan := ih l.length
          rw [hrest, List.drop_left] at hscan
          rw [hrest]
          exact hscan
      · rw [if_neg hstart]
        exact (ih 0).cons_cons c

/-- Replacing by a part of what is replaced leaves a part of the text. -/
theorem replaceAll_sublist (h : new.Sublist part) (s : List Char) :
    (replaceAll part new s).Sublist s :=
  replaceScan_sublist h 0 s

/-- A replacement with as many of a character as the part leaves their number as it is. -/
theorem count_replaceScan {x : Char} (hne : part ≠ []) (h : new.count x = part.count x)
    (skip : Nat) (s : List Char) :
    (replaceScan part new skip s).count x = (s.drop skip).count x := by
  induction s generalizing skip with
  | nil => simp [replaceScan]
  | cons c rest ih =>
    cases skip with
    | succ skip => exact ih skip
    | zero =>
      rw [replaceScan, List.drop_zero]
      by_cases hstart : part.isPrefixOf (c :: rest) = true
      · obtain ⟨t, ht⟩ := List.isPrefixOf_iff_prefix.1 hstart
        obtain ⟨d, l, rfl⟩ := List.exists_cons_of_ne_nil hne
        have hrest : rest = l ++ t := ((List.cons.injEq _ _ _ _).mp ht).2.symm
        have hscan := ih l.length
        rw [hrest, List.drop_left] at hscan
        rw [if_pos hstart, List.length_cons, Nat.add_sub_cancel, List.count_append, h, hrest,
          hscan, ← List.count_append, ← hrest, ← ht]
      · rw [if_neg hstart, List.count_cons, List.count_cons, ih 0, List.drop_zero]

/-- A character that is written as often as it is replaced occurs as often as before. -/
theorem count_replaceAll {x : Char} (hne : part ≠ []) (h : new.count x = part.count x)
    (s : List Char) : (replaceAll part new s).count x = s.count x :=
  count_replaceScan hne h 0 s

end Preflight.Text

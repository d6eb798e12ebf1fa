import Preflight.Header.Printer
import Preflight.Proofs.Text.Replacement
import Preflight.Proofs.Text.Trimming

/-!
# Reading back what was quoted

Unquoting undoes quoting for every text (`unquote_quoted`), although it undoes the
escapes in two passes: the first pass leaves the text with each backslash doubled,
and the second halves them. A trimmed text that starts with no quote stands for
itself. In every case what is read is part of what was written
(`unquote_sublist`), so reading neither invents characters nor makes a text longer, and
it drops no comma (`count_comma_unquote`).
-/

set_option autoImplicit false

namespace Preflight.Header

open Preflight.Text

/-! ### Escapes -/

/-- The text with each backslash written twice. -/
def doubleBackslashes (s : List Char) : List Char :=
  s.flatMap fun c => if c = '\\' then ['\\', '\\'] else [c]

/-- An escaped text does not start with a quote. -/
theorem head?_escape_ne_quote (s : List Char) : (escape s).head? ≠ some '"' := by
  cases s with
  | nil => simp [escape]
  | cons c s =>
    by_cases hc : c = '"' ∨ c = '\\'
    · simp [escape, hc]
    · rw [not_or] at hc
      simp [escape, hc]

/-- A character that no escape starts with is kept by a replacement of escapes. -/
theorem replace_escape_cons {c : Char} (hc : c ≠ '\\') (d : Char) (new rest : List Char) :
    replaceAll ['\\', d] new (c :: rest) = c :: replaceAll ['\\', d] new rest := by
  apply replaceAll_cons
  simp [List.isPrefixOf, Ne.symm hc]

/-- A backslash is kept by the replacement of an escape that does not start with it. -/
theorem replace_escape_backslash {d : Char} {rest : List Char} (h : rest.head? ≠ some d)
    (new : List Char) :
    replaceAll ['\\', d] new ('\\' :: rest) = '\\' :: replaceAll ['\\', d] new rest := by
  apply replaceAll_cons
  cases rest with
  | nil => rfl
  | cons e rest =>
    have he : d ≠ e := by
      intro he
      exact h (by rw [he, List.head?_cons])
    simp [List.isPrefixOf, he]

/-- An escape is replaced by what it stands for. -/
theorem replace_escape (d : Char) (new rest : List Char) :
    replaceAll ['\\', d] new ('\\' :: d :: rest) = new ++ replaceAll ['\\', d] new rest :=
  replaceAll_append (List.cons_ne_nil _ _) rest

/-- The first pass turns escaped quotes into quotes and leaves the doubled backslashes. -/
theorem replace_quote_escape (s : List Char) :
    replaceAll ['\\', '"'] ['"'] (escape s) = doubleBackslashes s := by
  induction s with
  | nil => rfl
  | cons c s ih =>
    rw [doubleBackslashes, List.flatMap_cons, ← doubleBackslashes, ← ih]
    by_cases hquote : c = '"'
    · subst hquote
      exact replace_escape '"' ['"'] (escape s)
    · by_cases hslash : c = '\\'
      · subst hslash
        have hescape : escape ('\\' :: s) = '\\' :: '\\' :: escape s := rfl
        rw [hescape, replace_escape_backslash (by simp),
          replace_escape_backslash (head?_escape_ne_quote s)]
        rfl
      · have hescape : escape (c :: s) = c :: escape s := by
          simp [escape, hquote, hslash]
        rw [hescape, if_neg hslash]
        exact replace_escape_cons hslash '"' ['"'] (escape s)

/-- The second pass halves doubled backslashes. -/
theorem replace_backslash_double (s : List Char) :
    replaceAll ['\\', '\\'] ['\\'] (doubleBackslashes s) = s := by
  induction s with
  | nil => rfl
  | cons c s ih =>
    by_cases hc : c = '\\'
    · subst hc
      have hpass : replaceAll ['\\', '\\'] ['\\'] (doubleBackslashes ('\\' :: s)) =
          '\\' :: replaceAll ['\\', '\\'] ['\\'] (doubleBackslashes s) :=
        replace_escape '\\' ['\\'] (doubleBackslashes s)
      rw [hpass, ih]
    · have hdouble : doubleBackslashes (c :: s) = c :: doubleBackslashes s := by
        simp [doubleBackslashes, hc]
      rw [hdouble, replace_escape_cons hc, ih]

/-- Undoing escapes gives back the text that was escaped. -/
theorem unescape_escaped (s : List Char) : unescape (escape s) = s := by
  rw [unescape, replace_quote_escape, replace_backslash_double]

/-! ### Quotes -/

/-- What stands between a leading and a final character. -/
theorem between?_eq_some_iff {q : Char} {s inside : List Char} :
    between? q s = some inside ↔ s = q :: (inside ++ [q]) := by
  constructor
  · intro h
    match s, h with
    | c :: d :: rest, h =>
      rw [between?] at h
      by_cases hq : c = q ∧ (d :: rest).getLast? = some q
      · rw [if_pos hq, Option.some.injEq] at h
        obtain ⟨before, hbefore⟩ := List.getLast?_eq_some_iff.1 hq.2
        rw [← h, hbefore, List.dropLast_concat, hq.1]
      · rw [if_neg hq] at h
        exact absurd h (by simp)
  · rintro rfl
    have hlast : (inside ++ [q]).getLast? = some q := List.getLast?_concat
    have hinside : (inside ++ [q]).dropLast = inside := List.dropLast_concat
    cases h : inside ++ [q] with
    | nil => simp at h
    | cons d rest =>
      rw [h] at hlast hinside
      rw [between?, if_pos ⟨rfl, hlast⟩, hinside]

/-- Between the quotes of a quoted text stands its escaped form. -/
theorem between?_quote (s : List Char) : between? '"' (quote s) = some (escape s) :=
  between?_eq_some_iff.2 rfl

/-- A quoted text is trimmed. -/
theorem trim_quote (s : List Char) : trim (quote s) = quote s :=
  trim_cons_concat (by decide) (by decide) (escape s)

/-- Unquoting undoes quoting. -/
theorem unquote_quoted (s : List Char) : unquote (quote s) = s := by
  simp only [unquote, trim_quote, between?_quote, unescape_escaped]

/-- A blank at the start is not read. -/
theorem unquote_cons_of_isBlank {c : Char} (hc : isBlank c = true) (s : List Char) :
    unquote (c :: s) = unquote s := by
  simp only [unquote, trim_cons_of_isBlank hc]

/-- Nothing stands between quotes if there is none at the start. -/
theorem between?_eq_none {q : Char} {s : List Char} (h : s.head? ≠ some q) :
    between? q s = none := by
  match s, h with
  | [], _ => rfl
  | [_], _ => rfl
  | c :: d :: rest, h =>
    have hc : c ≠ q := by
      intro hc
      exact h (by rw [List.head?_cons, hc])
    simp [between?, hc]

/-- A trimmed text that starts with no quote stands for itself. -/
theorem unquote_eq_self {s : List Char} (htrim : trim s = s) (hdouble : s.head? ≠ some '"')
    (hsingle : s.head? ≠ some '\'') : unquote s = s := by
  simp only [unquote, htrim, between?_eq_none hdouble, between?_eq_none hsingle]

/-- What stands between quotes is part of the text. -/
theorem between?_sublist {q : Char} {s inside : List Char} (h : between? q s = some inside) :
    inside.Sublist s := by
  rw [between?_eq_some_iff.1 h]
  exact (List.sublist_append_left inside [q]).trans (List.sublist_cons_self q _)

/-- Reading escapes leaves part of the text. -/
theorem unescape_sublist (s : List Char) : (unescape s).Sublist s :=
  (replaceAll_sublist (by simp) _).trans (replaceAll_sublist (by simp) s)

/-- Reading doubled quotes leaves part of the text. -/
theorem undouble_sublist (s : List Char) : (undouble s).Sublist s :=
  replaceAll_sublist (by simp) s

/-- What is read of a text is part of it, without the blanks at its ends. -/
theorem unquote_sublist_trim (s : List Char) : (unquote s).Sublist (trim s) := by
  simp only [unquote]
  cases hdouble : between? '"' (trim s) with
  | some inside => exact (unescape_sublist inside).trans (between?_sublist hdouble)
  | none =>
    cases hsingle : between? '\'' (trim s) with
    | some inside => exact (undouble_sublist inside).trans (between?_sublist hsingle)
    | none => exact List.Sublist.refl _

/-- The text that a value denotes is part of the value. -/
theorem unquote_sublist (s : List Char) : (unquote s).Sublist s :=
  (unquote_sublist_trim s).trans (trim_sublist s)

/-- Reading escapes leaves all commas. -/
theorem count_comma_unescape (s : List Char) : (unescape s).count ',' = s.count ',' := by
  rw [unescape, count_replaceAll (by simp) (by decide), count_replaceAll (by simp) (by decide)]

/-- Reading doubled quotes leaves all commas. -/
theorem count_comma_undouble (s : List Char) : (undouble s).count ',' = s.count ',' :=
  count_replaceAll (by simp) (by decide) s

/-- The text that a value denotes has all the commas of the value. -/
theorem count_comma_unquote (s : List Char) : (unquote s).count ',' = s.count ',' := by
  have hbetween {q : Char} {s inside : List Char} (hq : q ≠ ',')
      (h : between? q s = some inside) : inside.count ',' = s.count ',' := by
    rw [between?_eq_some_iff.1 h]
    simp [hq]
  rw [← count_trim (by decide : isBlank ',' = false) s]
  simp only [unquote]
  cases hdouble : between? '"' (trim s) with
  | some inside => exact (count_comma_unescape inside).trans (hbetween (by decide) hdouble)
  | none =>
    cases hsingle : between? '\'' (trim s) with
    | some inside => exact (count_comma_undouble inside).trans (hbetween (by decide) hsingle)
    | none => rfl

end Preflight.Header

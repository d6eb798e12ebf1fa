import Preflight.Proofs.Header.Quoting

/-!
# Escapes are undone in one pass

What stands between double quotes is read by two replacements over the whole text, first of
escaped quotes and then of doubled backslashes. Neither makes or breaks an escape of the
other: the pair that is used up first is always the one that starts further to the left
(`unescape_backslash`). So the two are one pass from the left that reads each character once
(`unescape_eq_unescapeOnce`), and quoting a text is undone by it.
-/

set_option autoImplicit false

namespace Preflight.Header

open Preflight.Text

/-- One pass from the left: of a backslash and a double quote or a backslash after it only the latter is
kept, and every other character is kept. -/
def unescapeOnce : List Char → List Char
  | [] => []
  | [c] => [c]
  | c :: d :: rest =>
    if c = '\\' ∧ (d = '"' ∨ d = '\\') then d :: unescapeOnce rest
    else c :: unescapeOnce (d :: rest)

/-! ### Both replacements, a step at a time -/

/-- A character that is no backslash is read as it stands. -/
theorem unescape_cons {c : Char} (hc : c ≠ '\\') (rest : List Char) :
    unescape (c :: rest) = c :: unescape rest := by
  rw [unescape, replace_escape_cons hc, replace_escape_cons hc, ← unescape]

/-- An escaped quote is read as a quote. -/
theorem unescape_quote (rest : List Char) : unescape ('\\' :: '"' :: rest) = '"' :: unescape rest := by
  rw [unescape, replace_escape, List.singleton_append, replace_escape_cons (by decide), ← unescape]

/-- An escaped backslash is read before what follows it. If a quote follows, the first replacement takes
the second backslash away with it, and the second one leaves the first. -/
theorem unescape_backslash (rest : List Char) :
    unescape ('\\' :: '\\' :: rest) = '\\' :: unescape rest := by
  have hfirst : replaceAll ['\\', '"'] ['"'] ('\\' :: '\\' :: rest) =
      '\\' :: replaceAll ['\\', '"'] ['"'] ('\\' :: rest) :=
    replace_escape_backslash (by simp) _
  rw [unescape, hfirst]
  by_cases hquote : rest.head? = some '"'
  · obtain ⟨rest, rfl⟩ := List.head?_eq_some_iff.1 hquote
    rw [replace_escape, List.singleton_append, replace_escape_backslash (by simp),
      replace_escape_cons (by decide), unescape_cons (by decide), ← unescape]
  · rw [replace_escape_backslash hquote, replace_escape, List.singleton_append, ← unescape]

/-- A backslash before any other character is read as it stands. -/
theorem unescape_backslash_cons {c : Char} (hquote : c ≠ '"') (hslash : c ≠ '\\') (rest : List Char) :
    unescape ('\\' :: c :: rest) = '\\' :: unescape (c :: rest) := by
  have hhead {d : Char} (hd : c ≠ d) (tail : List Char) : (c :: tail).head? ≠ some d := by
    simpa using hd
  rw [unescape, replace_escape_backslash (hhead hquote rest), replace_escape_cons hslash,
    replace_escape_backslash (hhead hslash _), ← replace_escape_cons hslash, ← unescape]

/-- The two replacements are one pass. -/
theorem unescape_eq_unescapeOnce (s : List Char) : unescape s = unescapeOnce s := by
  fun_induction unescapeOnce s with
  | case1 => rfl
  | case2 c =>
    by_cases hc : c = '\\'
    · rw [hc]
      rfl
    · exact unescape_cons hc []
  | case3 c d rest h ih =>
    obtain ⟨rfl, rfl | rfl⟩ := h
    · rw [unescape_quote, ih]
    · rw [unescape_backslash, ih]
  | case4 c d rest h ih =>
    by_cases hc : c = '\\'
    · obtain ⟨hquote, hslash⟩ := not_or.1 fun hd => h ⟨hc, hd⟩
      rw [hc, unescape_backslash_cons hquote hslash, ih]
    · rw [unescape_cons hc, ih]

/-- **Quoting is undone, and escapes are undone in one pass.** Every text is read back from its quoted
form, and between double quotes any text is read from the left: a backslash before a double quote or a
backslash yields that character, and every other character is kept. -/
theorem unquote_doubleQuoted :
    (∀ s, unquote (quote s) = s) ∧ ∀ w, unquote ('"' :: w ++ ['"']) = unescapeOnce w := by
  refine ⟨unquote_quoted, fun w => ?_⟩
  have htrim : trim ('"' :: w ++ ['"']) = '"' :: w ++ ['"'] :=
    trim_cons_concat (by decide) (by decide) w
  have hinside : between? '"' ('"' :: w ++ ['"']) = some w := between?_eq_some_iff.2 rfl
  simp only [unquote, htrim, hinside, unescape_eq_unescapeOnce]

end Preflight.Header

import Mathlib.Data.List.Chain
import Preflight.Proofs.Text.Trimming
import Preflight.Text.Compact

/-!
# Texts with single spaces

A text is spaced if its only blanks are single spaces between other characters
(`IsSpaced`). To put the words of a text together with spaces between them is to write
each run of blanks as one space and to trim the ends (`collapse_eq_trim_squeeze`), and it
leaves a text as it is exactly if the text is spaced (`collapse_eq_self_iff`).

A spaced text that is cut anywhere stays spaced with dots after it: a dot may follow a space
as well as any other character (`IsSpaced.cut`). So a text that was cut to a width is spaced
and is left as it is when it is cut to the same width again, although it is longer: the next
cut takes away the dots and nothing else, and puts them back (`compactLine_spaced`).
-/

set_option autoImplicit false

namespace Preflight.Text

/-! ### Words -/

/-- A blank separates words. -/
theorem words_append_blank {c : Char} (hc : isBlank c = true) (s t : List Char) :
    words (s ++ c :: t) = words s ++ words t := by
  rw [words, List.splitOnP_append_cons s t hc, List.filter_append, words, words]

/-- A blank at the start belongs to no word. -/
theorem words_cons_blank {c : Char} (hc : isBlank c = true) (s : List Char) :
    words (c :: s) = words s :=
  words_append_blank hc [] s

/-- One character that is no blank is a word. -/
theorem words_singleton {c : Char} (hc : isBlank c = false) : words [c] = [[c]] := by
  simp [words, List.splitOnP_cons_eq_if_modifyHead, hc]

/-- A character before a word belongs to the word. -/
theorem words_cons_cons {c d : Char} (hc : isBlank c = false) (hd : isBlank d = false)
    (s : List Char) :
    ∃ word rest, words (d :: s) = word :: rest ∧ words (c :: d :: s) = (c :: word) :: rest := by
  obtain ⟨first, parts, hs⟩ := List.exists_cons_of_ne_nil (List.splitOnP_ne_nil isBlank s)
  have hword : (d :: s).splitOnP isBlank = (d :: first) :: parts := by
    rw [List.splitOnP_cons_eq_if_modifyHead, if_neg (by simp [hd]), hs, List.modifyHead_cons]
  refine ⟨d :: first, parts.filter (!·.isEmpty), ?_, ?_⟩
  · rw [words, hword, List.filter_cons_of_pos (by simp)]
  · rw [words, List.splitOnP_cons_eq_if_modifyHead, if_neg (by simp [hc]), hword,
      List.modifyHead_cons, List.filter_cons_of_pos (by simp)]

/-- No word is empty. -/
theorem ne_nil_of_mem_words {s word : List Char} (h : word ∈ words s) : word ≠ [] := by
  simpa using (List.mem_filter.1 h).2

/-! ### Collapsing, a character at a time -/

/-- A blank at the start is left out. -/
theorem collapse_cons_blank {c : Char} (hc : isBlank c = true) (s : List Char) :
    collapse (c :: s) = collapse s := by
  rw [collapse, words_cons_blank hc, collapse]

/-- Within a word the characters are kept. -/
theorem collapse_cons_cons {c d : Char} (hc : isBlank c = false) (hd : isBlank d = false)
    (s : List Char) : collapse (c :: d :: s) = c :: collapse (d :: s) := by
  obtain ⟨word, rest, hs, hcs⟩ := words_cons_cons hc hd s
  rw [collapse, collapse, hs, hcs]
  cases rest with
  | nil => simp
  | cons next rest => simp [List.intercalate_cons_cons]

/-- Before a blank a character is a word or the end of one, and a space follows it if another word
does. -/
theorem collapse_cons_cons_blank {c d : Char} (hc : isBlank c = false) (hd : isBlank d = true)
    (s : List Char) :
    collapse (c :: d :: s) = if collapse s = [] then [c] else c :: ' ' :: collapse s := by
  have hwords : words (c :: d :: s) = [c] :: words s := by
    rw [← List.singleton_append, words_append_blank hd, words_singleton hc, List.singleton_append]
  rw [collapse, hwords, collapse]
  cases hs : words s with
  | nil => simp
  | cons word rest =>
    have hne : [' '].intercalate (word :: rest) ≠ [] := by
      have hword : word ≠ [] := ne_nil_of_mem_words (hs ▸ List.mem_cons_self)
      cases rest <;> simp [List.intercalate_cons_cons, hword]
    rw [if_neg hne, List.intercalate_cons_cons]
    rfl

/-! ### Runs of blanks -/

/-- The text with each run of blanks written as one space: the last blank of a run becomes the space, and
those before it are left out. -/
def squeeze : List Char → List Char
  | [] => []
  | c :: rest =>
    if isBlank c then
      if rest.head?.any isBlank then squeeze rest else ' ' :: squeeze rest
    else c :: squeeze rest

/-- A character that is no blank is kept. -/
theorem squeeze_cons {c : Char} (hc : isBlank c = false) (s : List Char) :
    squeeze (c :: s) = c :: squeeze s := by
  rw [squeeze, if_neg (by simp [hc])]

/-- A run of blanks is written as one space. -/
theorem squeeze_cons_blank {c : Char} (hc : isBlank c = true) (s : List Char) :
    squeeze (c :: s) = ' ' :: squeeze (trimStart s) := by
  induction s generalizing c with
  | nil => simp [squeeze, hc, trimStart]
  | cons d s ih =>
    rw [squeeze, if_pos hc]
    by_cases hd : isBlank d = true
    · rw [if_pos (by simpa using hd), ih hd, trimStart, trimStart, List.dropWhile_cons_of_pos hd]
    · rw [if_neg (by simpa using hd), trimStart, List.dropWhile_cons_of_neg hd]

/-- To put the words of a text together is to write each run of blanks as one space and to trim the ends. -/
theorem collapse_eq_trim_squeeze (s : List Char) : collapse s = trim (squeeze s) := by
  induction s with
  | nil => rfl
  | cons c s ih =>
    by_cases hc : isBlank c = true
    · rw [collapse_cons_blank hc, ih, squeeze, if_pos hc]
      split
      · rfl
      · exact (trim_cons_of_isBlank (by decide) _).symm
    · rw [Bool.not_eq_true] at hc
      rw [squeeze_cons hc, trim_cons hc]
      cases s with
      | nil =>
        rw [collapse, words_singleton hc, List.intercalate_singleton]
        rfl
      | cons d s =>
        by_cases hd : isBlank d = true
        · rw [collapse_cons_blank hd, squeeze_cons_blank hd, trim_cons_of_isBlank (by decide)] at ih
          rw [collapse_cons_cons_blank hc hd, ih, squeeze_cons_blank hd]
          -- the space is kept exactly if something other than blanks comes after it
          rcases trimStart_cases s with hs | ⟨e, r, hs, he⟩
          · rw [hs]
            rfl
          · rw [hs, squeeze_cons he, trim_cons he, if_neg (List.cons_ne_nil _ _)]
            exact congrArg _ (trimEnd_append_cons [' '] he _).symm
        · rw [Bool.not_eq_true] at hd
          rw [squeeze_cons hd, trim_cons hd] at ih
          rw [collapse_cons_cons hc hd, ih, squeeze_cons hd, trimEnd_cons hd]

/-! ### Spaced texts -/

/-- A text whose only blanks are single spaces between other characters. -/
structure IsSpaced (s : List Char) : Prop where
  eq_space : ∀ c ∈ s, isBlank c = true → c = ' '
  single : s.IsChain fun c d => isBlank c = true → isBlank d = false
  head : ∀ c, s.head? = some c → isBlank c = false
  last : ∀ c, s.getLast? = some c → isBlank c = false

/-- All blanks that are left are spaces. -/
theorem eq_space_of_mem_squeeze {s : List Char} :
    ∀ c ∈ squeeze s, isBlank c = true → c = ' ' := by
  induction s with
  | nil => simp [squeeze]
  | cons c s ih =>
    rw [squeeze]
    split
    · split
      · exact ih
      · exact List.forall_mem_cons.2 ⟨fun _ => rfl, ih⟩
    · rename_i hc
      exact List.forall_mem_cons.2 ⟨fun h => absurd h hc, ih⟩

/-- Squeezing adds no blank at the start and leaves none out there. -/
theorem any_head?_squeeze (s : List Char) :
    (squeeze s).head?.any isBlank = s.head?.any isBlank := by
  cases s with
  | nil => rfl
  | cons c s =>
    by_cases hc : isBlank c = true
    · have hspace : isBlank ' ' = true := by decide
      rw [squeeze_cons_blank hc]
      simp [hc, hspace]
    · rw [squeeze_cons (by simpa using hc)]
      rfl

/-- No two blanks that are left stand side by side. -/
theorem isChain_squeeze (s : List Char) :
    (squeeze s).IsChain fun c d => isBlank c = true → isBlank d = false := by
  induction s with
  | nil => exact List.isChain_nil
  | cons c s ih =>
    have hhead := any_head?_squeeze s
    rw [squeeze]
    split
    · split
      · exact ih
      · rename_i hs
        refine List.isChain_cons.2 ⟨fun d hd _ => ?_, ih⟩
        rw [← hhead, Option.mem_def.1 hd] at hs
        simpa using hs
    · rename_i hc
      exact List.isChain_cons.2 ⟨fun d _ h => absurd h hc, ih⟩

/-- A collapsed text is spaced. -/
theorem isSpaced_collapse (s : List Char) : IsSpaced (collapse s) := by
  rw [collapse_eq_trim_squeeze]
  obtain ⟨hhead, hlast⟩ := (trim_eq_self_iff _).1 (trim_trim (squeeze s))
  exact
    { eq_space := fun c hc => eq_space_of_mem_squeeze c ((trim_sublist _).subset hc)
      single := List.IsChain.infix (isChain_squeeze s) (trim_isInfix _)
      head := hhead
      last := hlast }

/-- A text with single spaces alone is left as it is. -/
theorem squeeze_eq_self {s : List Char} (hspace : ∀ c ∈ s, isBlank c = true → c = ' ')
    (hsingle : s.IsChain fun c d => isBlank c = true → isBlank d = false) : squeeze s = s := by
  induction s with
  | nil => rfl
  | cons c s ih =>
    obtain ⟨hc, hspace⟩ := List.forall_mem_cons.1 hspace
    obtain ⟨hnext, hsingle⟩ := List.isChain_cons.1 hsingle
    rw [squeeze, ih hspace hsingle]
    by_cases hblank : isBlank c = true
    · have hs : s.head?.any isBlank = false := by
        cases s with
        | nil => rfl
        | cons d s => exact hnext d rfl hblank
      rw [if_pos hblank, hs, hc hblank]
      rfl
    · rw [if_neg hblank]

/-- Exactly the spaced texts are their words with spaces between them. -/
theorem collapse_eq_self_iff (s : List Char) : collapse s = s ↔ IsSpaced s := by
  constructor
  · intro h
    exact h ▸ isSpaced_collapse s
  · intro h
    rw [collapse_eq_trim_squeeze, squeeze_eq_self h.eq_space h.single, trim_eq_self_iff]
    exact ⟨h.head, h.last⟩

/-! ### Cuts -/

/-- A spaced text that is cut and marked with dots is spaced, also if the cut is after a space. -/
theorem IsSpaced.cut {s : List Char} (h : IsSpaced s) (n : Nat) :
    IsSpaced (s.take n ++ ['.', '.', '.']) where
  eq_space := by
    intro c hc hblank
    rcases List.mem_append.1 hc with hc | hc
    · exact h.eq_space c (List.mem_of_mem_take hc) hblank
    · obtain rfl : c = '.' := by simpa using hc
      exact absurd hblank (by decide)
  single := by
    refine List.isChain_append.2 ⟨h.single.take n, by decide, fun c _ d hd _ => ?_⟩
    obtain rfl : '.' = d := by simpa using hd
    decide
  head := by
    intro c hc
    cases n with
    | zero =>
      obtain rfl : '.' = c := by simpa using hc
      decide
    | succ n =>
      cases s with
      | nil =>
        obtain rfl : '.' = c := by simpa using hc
        decide
      | cons d s => exact h.head c hc
  last := by
    intro c hc
    obtain rfl : '.' = c := by simpa using hc
    decide

/-- A text that is short enough is only collapsed. -/
theorem compact_of_le {limit : Nat} {s : List Char} (h : (collapse s).length ≤ limit) :
    compact limit s = collapse s := by
  rw [compact, if_pos h]

/-- A text that is too long is cut at the limit, with dots after it. -/
theorem compact_of_lt {limit : Nat} {s : List Char} (h : limit < (collapse s).length) :
    compact limit s = (collapse s).take limit ++ ['.', '.', '.'] := by
  rw [compact, if_neg (Nat.not_le.2 h)]

/-- A text that is cut has three characters more than the limit. -/
theorem length_cut {limit : Nat} {s : List Char} (h : limit < s.length) :
    (s.take limit ++ ['.', '.', '.']).length = limit + 3 := by
  rw [List.length_append, List.length_take_of_le h.le]
  rfl

/-- A compact text is spaced, whether it is cut or not. -/
theorem isSpaced_compact (limit : Nat) (s : List Char) : IsSpaced (compact limit s) := by
  rcases Nat.lt_or_ge limit (collapse s).length with h | h
  · rw [compact_of_lt h]
    exact (isSpaced_collapse s).cut limit
  · rw [compact_of_le h]
    exact isSpaced_collapse s

/-- What was cut to a width is left as it is when it is cut to it again. -/
theorem compact_compact (limit : Nat) (s : List Char) :
    compact limit (compact limit s) = compact limit s := by
  have hself : collapse (compact limit s) = compact limit s :=
    (collapse_eq_self_iff _).2 (isSpaced_compact limit s)
  rcases Nat.lt_or_ge limit (collapse s).length with h | h
  · -- the cut text is too long again, and as much of it is kept as before
    have hcut := compact_of_lt h
    have hlong : limit < (collapse (compact limit s)).length := by
      rw [hself, hcut, length_cut h]
      omega
    have hkept : (compact limit s).take limit = (collapse s).take limit := by
      rw [hcut, List.take_left' (List.length_take_of_le h.le)]
    rw [compact_of_lt hlong, hself, hkept, hcut]
  · rw [compact_of_le h] at hself ⊢
    rw [compact_of_le (by rwa [hself]), hself]

/-- **Texts cut to a width.** What is written is the text with each run of blanks written as one space and
the ends trimmed, or as many characters of it as the limit says and three dots; its only blanks are single
spaces between other characters, and cutting it again changes nothing. -/
theorem compactLine_spaced (text : String) (limit : Nat) :
    let spaced := trim (squeeze text.toList)
    let line := compactLine text limit
    IsSpaced line.toList ∧
    line.toList = (if spaced.length ≤ limit then spaced else spaced.take limit ++ "...".toList) ∧
    line.length = (if spaced.length ≤ limit then spaced.length else limit + 3) ∧
    line.length ≤ limit + 3 ∧
    compactLine line limit = line := by
  intro spaced line
  have hspaced : collapse text.toList = spaced := collapse_eq_trim_squeeze text.toList
  have hline : line.toList = compact limit text.toList := String.toList_ofList
  have htext : line.toList =
      if spaced.length ≤ limit then spaced else spaced.take limit ++ "...".toList := by
    rw [hline, compact, hspaced]
    rfl
  have hlength : line.length = if spaced.length ≤ limit then spaced.length else limit + 3 := by
    rw [← String.length_toList, htext]
    split
    · rfl
    · rename_i h
      exact length_cut (Nat.lt_of_not_le h)
  refine ⟨hline ▸ isSpaced_compact limit _, htext, hlength, ?_, ?_⟩
  · rw [hlength]
    split <;> omega
  · rw [compactLine, hline, compact_compact, ← hline, String.ofList_toList]

/-- A cut after a space, and one that is narrower than the dots. -/
example : compactLine "\tab \n cd" 3 = "ab ..." ∧ compactLine "ab ..." 3 = "ab ..." ∧
    compactLine "ab" 0 = "..." ∧ compactLine "..." 0 = "..." := by
  decide +kernel

end Preflight.Text

import Preflight.Header.Document
import Preflight.Proofs.Header.Quoting

/-!
# Classes of header lines

What classifying a line can return, and how the lines that are written are
classified. Blanks at the end of a line do not matter, so a line may be classified
with or without its line ending (`classify_withoutEnding`). Everything that is
taken out of a line is part of it (`classify_within`). A key followed by a colon is
a key line (`classify_keyLine`), and an indented dash before a space starts an item
(`classify_itemLine`).
-/

set_option autoImplicit false

namespace Preflight.Header

open Preflight.Text

/-! ### Key characters -/

/-- Key characters are ASCII letters and digits, the hyphen, the underscore and the full stop. -/
theorem isKeyChar_iff (c : Char) :
    isKeyChar c = true ↔ c.isAlphanum = true ∨ c = '-' ∨ c = '_' ∨ c = '.' := by
  have hupper : c.isUpper = (decide ('A' ≤ c) && decide (c ≤ 'Z')) := Bool.decide_and _ _
  have hlower : c.isLower = (decide ('a' ≤ c) && decide (c ≤ 'z')) := rfl
  have hdigit : c.isDigit = (decide ('0' ≤ c) && decide (c ≤ '9')) := rfl
  have halphanum : c.isAlphanum = ((c.isUpper || c.isLower) || c.isDigit) := rfl
  rw [halphanum, hupper, hlower, hdigit, Bool.or_comm (decide ('A' ≤ c) && decide (c ≤ 'Z'))]
  simp only [isKeyChar, isAsciiLetter, isAsciiDigit, Bool.or_eq_true, beq_iff_eq, or_assoc]

/-- The characters of keys are letters, digits, the hyphen, the dot and the low line of the ASCII range.
-/
theorem toNat_of_isKeyChar {c : Char} (h : isKeyChar c = true) :
    c.toNat = 45 ∨ c.toNat = 46 ∨ (48 ≤ c.toNat ∧ c.toNat ≤ 57) ∨
      (65 ≤ c.toNat ∧ c.toNat ≤ 90) ∨ c.toNat = 95 ∨ (97 ≤ c.toNat ∧ c.toNat ≤ 122) := by
  have hle (a b : Char) : a ≤ b ↔ a.toNat ≤ b.toNat := by
    rw [Char.le_def, UInt32.le_iff_toNat_le]
    rfl
  simp only [isKeyChar, isAsciiLetter, isAsciiDigit, Bool.or_eq_true, Bool.and_eq_true,
    decide_eq_true_eq, beq_iff_eq, hle] at h
  rcases h with ((((⟨h₁, h₂⟩ | ⟨h₁, h₂⟩) | ⟨h₁, h₂⟩) | rfl) | rfl) | rfl
  · exact .inr (.inr (.inr (.inr (.inr ⟨h₁, h₂⟩))))
  · exact .inr (.inr (.inr (.inl ⟨h₁, h₂⟩)))
  · exact .inr (.inr (.inl ⟨h₁, h₂⟩))
  · exact .inl rfl
  · exact .inr (.inr (.inr (.inr (.inl rfl))))
  · exact .inr (.inl rfl)

/-- No blank stands in a key. -/
theorem isBlank_of_isKeyChar {c : Char} (h : isKeyChar c = true) : isBlank c = false := by
  have hc := toNat_of_isKeyChar h
  simp only [isBlank, Bool.or_eq_false_iff, Bool.and_eq_false_iff, decide_eq_false_iff_not,
    beq_eq_false_iff_ne]
  omega

/-- A key is one or more of its characters. -/
theorem isKey_iff (s : List Char) : isKey s = true ↔ s ≠ [] ∧ ∀ c ∈ s, isKeyChar c = true := by
  simp [isKey]

/-! ### Blanks at the end of a line -/

/-- Blanks at its end make no line a delimiter and keep none from being one. -/
theorem isDelimiter_append_blank (line : List Char) {r : List Char}
    (hr : ∀ c ∈ r, isBlank c = true) : isDelimiter (line ++ r) = isDelimiter line := by
  rw [isDelimiter, isDelimiter, trimEnd_append_blank line hr]

/-- Whether a line is a delimiter does not depend on its line feed. -/
theorem isDelimiter_append_feed (line : List Char) :
    isDelimiter (line ++ ['\n']) = isDelimiter line := by
  apply isDelimiter_append_blank
  intro c hc
  rw [List.mem_singleton.1 hc]
  decide

/-- In a text without a colon no character is one. -/
theorem ne_colon_of_mem {s : List Char} (hs : ':' ∉ s) :
    ∀ c ∈ s, decide (c ≠ ':') = true := by
  intro c hc
  rw [decide_eq_true_eq]
  rintro rfl
  exact hs hc

/-- What starts with the first colon is left after what stands before it. -/
theorem dropWhile_colon {s : List Char} (hs : ':' ∉ s) (rest : List Char) :
    (s ++ ':' :: rest).dropWhile (fun c => decide (c ≠ ':')) = ':' :: rest := by
  rw [List.dropWhile_append_of_pos (ne_colon_of_mem hs), List.dropWhile_cons_of_neg (by simp)]

/-- What stands before the first colon is taken. -/
theorem takeWhile_colon {s : List Char} (hs : ':' ∉ s) (rest : List Char) :
    (s ++ ':' :: rest).takeWhile (fun c => decide (c ≠ ':')) = s := by
  rw [List.takeWhile_append_of_pos (ne_colon_of_mem hs), List.takeWhile_cons_of_neg (by simp),
    List.append_nil]

/-- Without a colon nothing is left. -/
theorem dropWhile_no_colon {s : List Char} (hs : ':' ∉ s) :
    s.dropWhile (fun c => decide (c ≠ ':')) = [] :=
  List.dropWhile_eq_nil_iff.2 (ne_colon_of_mem hs)

/-- What a line is does not depend on blanks at its end. -/
theorem classify_append_blank (line : List Char) {r : List Char}
    (hr : ∀ c ∈ r, isBlank c = true) :
    Line.classify (line ++ r) = Line.classify line := by
  have hcolon : ':' ∉ r := by
    intro h
    exact absurd (hr _ h) (by decide)
  by_cases hempty : line = []
  · subst hempty
    have hnil : trim r = [] := (trim_eq_nil_iff r).2 hr
    simp only [Line.classify, List.nil_append, hnil]
    rfl
  have hindented : isIndented (line ++ r) = isIndented line := by
    obtain ⟨c, rest, rfl⟩ := List.exists_cons_of_ne_nil hempty
    rfl
  simp only [Line.classify, trim_append_blank _ hr, hindented]
  by_cases hmem : ':' ∈ line
  · -- the first colon is in the line, so only the value has the blanks
    obtain ⟨name, value, rfl, hname⟩ := List.eq_append_cons_of_mem hmem
    rw [List.append_assoc, List.cons_append, dropWhile_colon hname, takeWhile_colon hname,
      dropWhile_colon hname, takeWhile_colon hname]
    simp only [trim_append_blank value hr]
  · rw [dropWhile_no_colon hmem, dropWhile_no_colon (by simp [hmem, hcolon])]

/-- The class of a line does not depend on its line feed. -/
theorem classify_append_feed (line : List Char) :
    Line.classify (line ++ ['\n']) = Line.classify line := by
  apply classify_append_blank
  intro c hc
  rw [List.mem_singleton.1 hc]
  decide

/-- A line is classified alike with and without its line ending. -/
theorem classify_withoutEnding (line : List Char) :
    Line.classify (withoutEnding line) = Line.classify line := by
  obtain ⟨r, hline, hr⟩ := exists_dropEndWhile_append (fun c => c == '\n' || c == '\r') line
  have hblank : ∀ c ∈ r, isBlank c = true := by
    intro c hc
    have hending := hr c hc
    simp only [Bool.or_eq_true, beq_iff_eq] at hending
    rcases hending with rfl | rfl <;> decide
  calc Line.classify (withoutEnding line)
      = Line.classify (withoutEnding line ++ r) := (classify_append_blank _ hblank).symm
    _ = Line.classify line := by rw [withoutEnding, ← hline]

/-! ### What is taken out of a line -/

/-- A class whose texts are parts of a line, whose key is a key and whose indented text is not
empty. -/
def Line.Within (line : List Char) : Line → Prop
  | .key name value => isKey name = true ∧ name.Sublist line ∧ value.Sublist line
  | .item text => text.Sublist line
  | .indented text => text ≠ [] ∧ text.Sublist line
  | .blank => True
  | .other => True

/-- The text of an item line is part of the line. -/
theorem itemText?_sublist {s text : List Char} (h : itemText? s = some text) :
    text.Sublist s := by
  unfold itemText? at h
  split at h
  · rw [Option.some.injEq] at h
    rw [← h]
    exact List.nil_sublist _
  · rename_i rest
    rw [Option.some.injEq] at h
    rw [← h]
    exact ((trim_sublist rest).trans (List.sublist_cons_self ' ' rest)).trans
      (List.sublist_cons_self '-' _)
  · exact absurd h (by simp)

/-- What is taken out of a line is part of the line. -/
theorem classify_within (line : List Char) : (Line.classify line).Within line := by
  simp only [Line.classify]
  by_cases hblank : (trim line).isEmpty = true
  · rw [if_pos hblank]
    trivial
  rw [if_neg hblank]
  cases hitem : itemText? (trim line) with
  | some text => exact (itemText?_sublist hitem).trans (trim_sublist line)
  | none =>
    by_cases hindented : isIndented line = true
    · simp only [hindented, if_true]
      refine ⟨?_, trim_sublist line⟩
      simpa using hblank
    by_cases hcomment : (trim line).head? = some '#'
    · simp only [hindented, hcomment, if_true]
      trivial
    simp only [hindented, hcomment, if_false]
    cases hdrop : line.dropWhile (fun c => decide (c ≠ ':')) with
    | nil => trivial
    | cons colon value =>
      by_cases hkey : isKey (trimEnd (line.takeWhile fun c => decide (c ≠ ':'))) = true
      · simp only [hkey, if_true]
        refine ⟨hkey, ?_, ?_⟩
        · exact (trimEnd_sublist _).trans (List.takeWhile_sublist _)
        · have hvalue : value.Sublist line := by
            refine (List.sublist_cons_self colon value).trans ?_
            rw [← hdrop]
            exact List.dropWhile_sublist _
          exact (trim_sublist value).trans hvalue
      · simp only [hkey]
        trivial

/-! ### Lines as they are written -/

/-- A text of two characters or more is an item only if the second is a space. -/
theorem itemText?_eq_none (c : Char) {d : Char} (hd : d ≠ ' ') (rest : List Char) :
    itemText? (c :: d :: rest) = none := by
  unfold itemText?
  split
  · rename_i h
    simp at h
  · rename_i h
    simp only [List.cons.injEq] at h
    exact absurd h.2.1 hd
  · rfl

/-- A key that is followed by a colon makes a key line. -/
theorem classify_keyLine {name : List Char} (hname : isKey name = true) (value : List Char) :
    Line.classify (name ++ ':' :: value) = .key name (trim value) := by
  obtain ⟨hne, hchars⟩ := (isKey_iff name).1 hname
  have hcolon : ':' ∉ name := by
    intro h
    exact absurd (hchars _ h) (by decide)
  have hend : trimEnd name = name := by
    rw [trimEnd_eq_self_iff]
    intro c hc
    exact isBlank_of_isKeyChar (hchars c (List.mem_of_getLast? hc))
  obtain ⟨c, rest, rfl⟩ := List.exists_cons_of_ne_nil hne
  have hc : isKeyChar c = true := hchars c List.mem_cons_self
  have hblank : isBlank c = false := isBlank_of_isKeyChar hc
  have htrim : trim (c :: rest ++ ':' :: value) = c :: (rest ++ ':' :: trimEnd value) := by
    rw [List.cons_append, trim_cons hblank, trimEnd_append_cons rest (by decide)]
  have hitem : itemText? (c :: (rest ++ ':' :: trimEnd value)) = none := by
    cases rest with
    | nil => exact itemText?_eq_none c (by decide) _
    | cons d rest =>
      refine itemText?_eq_none c ?_ _
      rintro rfl
      exact absurd (hchars ' ' (by simp)) (by decide)
  have hcomment : c ≠ '#' := by
    rintro rfl
    exact absurd hc (by decide)
  simp only [Line.classify, htrim, hitem, dropWhile_colon hcolon, takeWhile_colon hcolon, hend,
    hname, if_true]
  simp [isIndented, hblank, hcomment]

/-- An indented dash before a space makes an item of what follows. -/
theorem classify_itemLine (text : List Char) :
    Line.classify (' ' :: ' ' :: '-' :: ' ' :: text) = .item (trim text) := by
  have hblank : isBlank ' ' = true := by decide
  have hskip : trim (' ' :: ' ' :: '-' :: ' ' :: text) = trim ('-' :: ' ' :: text) := by
    rw [trim_cons_of_isBlank hblank, trim_cons_of_isBlank hblank]
  have htrim : trim ('-' :: ' ' :: text) = '-' :: trimEnd (' ' :: text) :=
    trim_cons (by decide) _
  have hspace : trim (' ' :: text) = trim text :=
    trim_cons_of_isBlank hblank text
  have hitem : itemText? ('-' :: trimEnd (' ' :: text)) = some (trim text) := by
    obtain ⟨r, htext, hr⟩ := exists_trimEnd_append (' ' :: text)
    have hrest : trim (trimEnd (' ' :: text)) = trim text := by
      rw [← hspace]
      conv_rhs => rw [htext, trim_append_blank _ hr]
    cases hcases : trimEnd (' ' :: text) with
    | nil =>
      rw [hcases] at hrest
      rw [← hrest]
      rfl
    | cons d rest =>
      have hd : d = ' ' := by
        rw [hcases, List.cons_append, List.cons.injEq] at htext
        exact htext.1.symm
      rw [hcases, hd] at hrest
      rw [hd, itemText?, ← hrest, trim_cons_of_isBlank hblank]
  simp only [Line.classify, hskip, htrim, hitem]
  simp

end Preflight.Header

import Mathlib.Data.List.Basic
import Mathlib.Data.Set.List
import Mathlib.Tactic.Tauto
import Preflight.Hooks.Matcher
import Preflight.Proofs.Text.Joined

/-!
# What matchers say

A matcher selects everything, one of several named operations, or one operation with
arguments, and each of these is spelled in one way (`Matcher.text`). The texts that are
accepted as matchers are these spellings and no others, so that nothing may stand before
or after one, not even a line feed (`isMatcher_iff`).
-/

set_option autoImplicit false

namespace Preflight.Hooks

open Preflight.Text

/-- The name of an operation: an ASCII letter or an underscore, then ASCII letters, digits,
underscores and hyphens. -/
structure OperationName where
  first : Char
  rest : List Char
  first_isStart : first.isAlpha = true ∨ first = '_'
  rest_isPart : ∀ c ∈ rest, c.isAlphanum = true ∨ c = '_' ∨ c = '-'

def OperationName.text (name : OperationName) : List Char :=
  name.first :: name.rest

/-- What a matcher selects. -/
inductive Matcher where
  /-- Every operation. -/
  | everything
  /-- The operations with these names; there is at least one. -/
  | named (first : OperationName) (more : List OperationName)
  /-- An operation with arguments, which hold no parentheses. -/
  | call (name : OperationName) (arguments : List Char)
      (flat : '(' ∉ arguments ∧ ')' ∉ arguments)

/-- How a matcher is spelled. -/
def Matcher.text : Matcher → List Char
  | .everything => ['*']
  | .named first more => ['|'].intercalate ((first :: more).map OperationName.text)
  | .call name arguments _ => name.text ++ '(' :: (arguments ++ [')'])

/-! ### Names -/

/-- A name starts with an ASCII letter or a low line. -/
theorem isIdentifierStart_iff (c : Char) :
    isIdentifierStart c = true ↔ c.isAlpha = true ∨ c = '_' := by
  rw [isIdentifierStart, isAsciiLetter_eq, Bool.or_eq_true, beq_iff_eq]

/-- A name goes on with ASCII letters and digits, low lines and hyphens. -/
theorem isNamePart_iff (c : Char) :
    isNamePart c = true ↔ c.isAlphanum = true ∨ c = '_' ∨ c = '-' := by
  have halphanum : c.isAlphanum = (c.isAlpha || c.isDigit) := rfl
  simp only [isNamePart, isIdentifierPart, isIdentifierStart, isAsciiLetter_eq, isAsciiDigit_eq,
    halphanum, Bool.or_eq_true, beq_iff_eq]
  tauto

/-- All characters of a name may stand in one. -/
theorem OperationName.isNamePart_of_mem (name : OperationName) :
    ∀ c ∈ name.text, isNamePart c = true := by
  intro c hc
  rw [isNamePart_iff]
  rcases List.mem_cons.1 hc with rfl | hc
  · rcases name.first_isStart with halpha | hbar
    · exact .inl (by simp [Char.isAlphanum, halpha])
    · exact .inr (.inl hbar)
  · exact name.rest_isPart c hc

/-- A text passes for a name exactly if it is one. -/
theorem isName_iff (s : List Char) : isName s = true ↔ ∃ name : OperationName, name.text = s := by
  cases s with
  | nil => simp [isName, OperationName.text]
  | cons c rest =>
    rw [isName, Bool.and_eq_true, List.all_eq_true, isIdentifierStart_iff]
    constructor
    · rintro ⟨hc, hrest⟩
      exact ⟨⟨c, rest, hc, fun d hd => (isNamePart_iff d).1 (hrest d hd)⟩, rfl⟩
    · rintro ⟨name, hname⟩
      obtain ⟨rfl, rfl⟩ := List.cons.inj hname
      exact ⟨name.first_isStart, fun d hd => (isNamePart_iff d).2 (name.rest_isPart d hd)⟩

/-! ### Names joined by bars -/

/-- The texts between bars are names exactly if the whole is a matcher of names. -/
theorem all_isName_splitOn_iff (s : List Char) :
    (s.splitOn '|').all isName = true ↔
      ∃ first more, (Matcher.named first more).text = s := by
  rw [List.all_eq_true]
  constructor
  · intro h
    have hrange : s.splitOn '|' ∈ Set.range (List.map OperationName.text) := by
      rw [Set.range_list_map]
      exact fun part hpart => (isName_iff part).1 (h part hpart)
    obtain ⟨names, hnames⟩ := hrange
    have hjoin : ['|'].intercalate (names.map OperationName.text) = s := by
      rw [hnames, List.intercalate_splitOn]
    cases names with
    | nil => exact absurd hnames.symm (List.splitOn_ne_nil '|' s)
    | cons first more => exact ⟨first, more, hjoin⟩
  · rintro ⟨first, more, rfl⟩ part hpart
    have hbar : ∀ text ∈ (first :: more).map OperationName.text, '|' ∉ text := by
      intro text htext hmem
      obtain ⟨name, -, rfl⟩ := List.mem_map.1 htext
      exact absurd (name.isNamePart_of_mem '|' hmem) (by decide)
    rw [Matcher.text, List.splitOn_intercalate '|' hbar (by simp)] at hpart
    obtain ⟨name, -, rfl⟩ := List.mem_map.1 hpart
    exact (isName_iff _).2 ⟨name, rfl⟩

/-! ### Names with arguments -/

/-- Arguments are closed by a parenthesis that ends the text, with no other one before it. -/
theorem closesArguments_iff (s : List Char) :
    closesArguments s = true ↔
      ∃ arguments, ('(' ∉ arguments ∧ ')' ∉ arguments) ∧ arguments ++ [')'] = s := by
  have hflat (arguments : List Char) :
      (arguments.all fun c => c != '(' && c != ')') = true ↔
        '(' ∉ arguments ∧ ')' ∉ arguments := by
    simp only [List.all_eq_true, Bool.and_eq_true, bne_iff_ne, ne_eq, forall_and]
    constructor
    · exact fun h => ⟨fun hmem => h.1 _ hmem rfl, fun hmem => h.2 _ hmem rfl⟩
    · rintro ⟨hopen, hclose⟩
      exact ⟨fun c hc heq => hopen (heq ▸ hc), fun c hc heq => hclose (heq ▸ hc)⟩
  rw [closesArguments, Bool.and_eq_true, beq_iff_eq, hflat]
  constructor
  · rintro ⟨hlast, hinside⟩
    exact ⟨s.dropLast, hinside, List.dropLast_append_getLast? ')' hlast⟩
  · rintro ⟨arguments, hinside, rfl⟩
    rw [List.dropLast_concat]
    exact ⟨List.getLast?_concat, hinside⟩

/-- A text passes for a call exactly if it is one. -/
theorem isCall_iff (s : List Char) :
    isCall s = true ↔ ∃ name arguments flat, (Matcher.call name arguments flat).text = s := by
  constructor
  · intro h
    unfold isCall at h
    split at h
    · rename_i rest hrest
      rw [Bool.and_eq_true, isName_iff, closesArguments_iff] at h
      obtain ⟨⟨name, hname⟩, arguments, flat, hclosed⟩ := h
      refine ⟨name, arguments, flat, ?_⟩
      rw [Matcher.text, hclosed, hname, ← hrest, List.takeWhile_append_dropWhile]
    · exact absurd h (by decide)
  · rintro ⟨name, arguments, flat, rfl⟩
    -- a parenthesis is no character of names, so the name ends before it
    have hopen : ¬isNamePart '(' = true := by decide
    have hname := name.isNamePart_of_mem
    rw [Matcher.text, isCall, List.dropWhile_append_of_pos hname,
      List.takeWhile_append_of_pos hname, List.dropWhile_cons_of_neg hopen,
      List.takeWhile_cons_of_neg hopen, List.append_nil]
    simp only [Bool.and_eq_true]
    exact ⟨(isName_iff _).2 ⟨name, rfl⟩, (closesArguments_iff _).2 ⟨arguments, flat, rfl⟩⟩

/-! ### Matchers -/

/-- A text passes for a matcher exactly if it is the text of one. -/
theorem isMatcher_eq_true_iff (s : List Char) :
    isMatcher s = true ↔ ∃ matcher : Matcher, matcher.text = s := by
  rw [isMatcher, Bool.or_eq_true, Bool.or_eq_true, beq_iff_eq, all_isName_splitOn_iff, isCall_iff]
  constructor
  · rintro ((rfl | ⟨first, more, rfl⟩) | ⟨name, arguments, flat, rfl⟩)
    · exact ⟨.everything, rfl⟩
    · exact ⟨.named first more, rfl⟩
    · exact ⟨.call name arguments flat, rfl⟩
  · rintro ⟨matcher, rfl⟩
    cases matcher with
    | everything => exact .inl (.inl rfl)
    | named first more => exact .inl (.inr ⟨first, more, rfl⟩)
    | call name arguments flat => exact .inr ⟨name, arguments, flat, rfl⟩

/-- Names between bars have no line feed. -/
theorem feed_not_mem_text_named (first : OperationName) (more : List OperationName) :
    '\n' ∉ (Matcher.named first more).text := by
  refine not_mem_intercalate (by decide) fun text htext hmem => ?_
  obtain ⟨name, -, rfl⟩ := List.mem_map.1 htext
  exact absurd (name.isNamePart_of_mem _ hmem) (by decide)

/-- No spelling ends with a line feed. -/
theorem Matcher.getLast?_text_ne (matcher : Matcher) :
    matcher.text.getLast? ≠ some '\n' := by
  intro h
  cases matcher with
  | everything => simp [text] at h
  | named first more => exact feed_not_mem_text_named first more (List.mem_of_getLast? h)
  | call name arguments flat =>
    rw [text, ← List.cons_append, ← List.append_assoc, List.getLast?_concat] at h
    simp at h

/-- No spelling starts with a line feed. -/
theorem Matcher.head?_text_ne (matcher : Matcher) : matcher.text.head? ≠ some '\n' := by
  intro h
  cases matcher with
  | everything => simp [text] at h
  | named first more => exact feed_not_mem_text_named first more (List.mem_of_head? h)
  | call name arguments flat =>
    have hfirst : name.first = '\n' := by simpa [text, OperationName.text] using h
    exact absurd (name.isNamePart_of_mem '\n' (hfirst ▸ List.mem_cons_self)) (by decide)

/-- **What is accepted as a matcher.** A star, names joined by bars, or a name with arguments in
parentheses; and nothing around it, not even a line feed. -/
theorem isMatcher_iff (s : List Char) :
    (isMatcher s = true ↔ ∃ matcher : Matcher, matcher.text = s) ∧
      isMatcher (s ++ ['\n']) = false ∧ isMatcher ('\n' :: s) = false := by
  refine ⟨isMatcher_eq_true_iff s, ?_, ?_⟩
  · rw [← Bool.not_eq_true, isMatcher_eq_true_iff]
    rintro ⟨matcher, htext⟩
    exact matcher.getLast?_text_ne (by rw [htext, List.getLast?_concat])
  · rw [← Bool.not_eq_true, isMatcher_eq_true_iff]
    rintro ⟨matcher, htext⟩
    exact matcher.head?_text_ne (by rw [htext, List.head?_cons])

/-- Arguments may hold line feeds and bars, but nothing may follow their parenthesis. -/
example :
    isMatcher "Bash(git *\n|rm)".toList = true ∧ isMatcher "Bash(git *)x".toList = false ∧
      isMatcher "Read||Write".toList = false := by
  decide

end Preflight.Hooks

import Preflight.Text.Lines

/-!
# Lines and line feeds

Cutting a text into lines undoes writing lines one after the other
(`lines_flatMap_feed`), and a line feed stands nowhere in a line but at its end
(`exists_content_of_mem_lines`). Which lists of lines a text can be cut into is said
without cutting (`AreLines`); such lines are what the text they make up is cut into
(`AreLines.lines_flatten`).
-/

set_option autoImplicit false

namespace Preflight.Text

/-- A text up to its first line feed is its first line. -/
theorem lines_append_feed {line : List Char} (h : '\n' ∉ line) (rest : List Char) :
    lines (line ++ '\n' :: rest) = (line ++ ['\n']) :: lines rest := by
  induction line with
  | nil => simp [lines]
  | cons c line ih =>
    rw [List.mem_cons, not_or] at h
    rw [List.cons_append, lines, if_neg (Ne.symm h.1), ih h.2, List.cons_append]

/-- Texts with a line feed after each are lines of what they start. -/
theorem lines_flatMap_feed_append (ls : List (List Char)) (h : ∀ line ∈ ls, '\n' ∉ line)
    (rest : List Char) :
    lines ((ls.flatMap fun line => line ++ ['\n']) ++ rest) =
      (ls.map fun line => line ++ ['\n']) ++ lines rest := by
  induction ls with
  | nil => rfl
  | cons line ls ih =>
    rw [List.flatMap_cons, List.append_assoc, List.append_assoc, List.singleton_append,
      lines_append_feed (h line List.mem_cons_self),
      ih fun l hl => h l (List.mem_cons_of_mem _ hl), List.map_cons, List.cons_append]

/-- Lines without line feeds, written with one after each, are the lines of what was written. -/
theorem lines_flatMap_feed (ls : List (List Char)) (h : ∀ line ∈ ls, '\n' ∉ line) :
    lines (ls.flatMap fun line => line ++ ['\n']) = ls.map fun line => line ++ ['\n'] := by
  have hlines := lines_flatMap_feed_append ls h []
  rwa [List.append_nil, lines, List.append_nil] at hlines

/-! ### What a text is cut into -/

/-- Lists of lines into which a text can be cut: each line ends with its only line feed, but the
last, which is not empty, may lack it. -/
inductive AreLines : List (List Char) → Prop
  | nil : AreLines []
  | last {line : List Char} (ne_nil : line ≠ []) (no_feed : '\n' ∉ line) : AreLines [line]
  | cons {content : List Char} (no_feed : '\n' ∉ content) {rest : List (List Char)}
      (tail : AreLines rest) : AreLines ((content ++ ['\n']) :: rest)

/-- The lines of a text are lines. -/
theorem areLines_lines (s : List Char) : AreLines (lines s) := by
  induction s with
  | nil => exact .nil
  | cons c rest ih =>
    rw [lines]
    by_cases hc : c = '\n'
    · rw [if_pos hc, hc]
      exact @AreLines.cons [] List.not_mem_nil _ ih
    · rw [if_neg hc]
      cases hrest : lines rest with
      | nil => exact .last (by simp) (by simpa using Ne.symm hc)
      | cons line more =>
        rw [hrest] at ih
        cases ih with
        | last _ hfeed => exact .last (by simp) (by simpa using ⟨Ne.symm hc, hfeed⟩)
        | @cons content hfeed _ hmore =>
          exact @AreLines.cons (c :: content) (by simpa using ⟨Ne.symm hc, hfeed⟩) _ hmore

/-- A text without a line feed is one line. -/
theorem lines_of_feed_not_mem {line : List Char} (hne : line ≠ []) (h : '\n' ∉ line) :
    lines line = [line] := by
  induction line with
  | nil => exact absurd rfl hne
  | cons c line ih =>
    rw [List.mem_cons, not_or] at h
    rw [lines, if_neg (Ne.symm h.1)]
    cases line with
    | nil => rfl
    | cons d line => rw [ih (by simp) h.2]

/-- Lines are what the text that they make up is cut into. -/
theorem AreLines.lines_flatten {ls : List (List Char)} (h : AreLines ls) :
    lines ls.flatten = ls := by
  induction h with
  | nil => rfl
  | last hne hfeed => rw [List.flatten_singleton, lines_of_feed_not_mem hne hfeed]
  | cons hfeed _ ih =>
    rw [List.flatten_cons, List.append_assoc, List.singleton_append, lines_append_feed hfeed, ih]

/-- Lines may be followed by more lines if the last of them ends with a line feed. -/
theorem areLines_append_iff (ls more : List (List Char)) :
    AreLines (ls ++ more) ↔ AreLines ls ∧ AreLines more ∧
      (more = [] ∨ ∀ line ∈ ls.getLast?, line.getLast? = some '\n') := by
  induction ls with
  | nil => simp [AreLines.nil]
  | cons line ls ih =>
    constructor
    · intro h
      rw [List.cons_append] at h
      generalize hall : ls ++ more = all at h ih
      cases h with
      | last hne hfeed =>
        obtain ⟨rfl, rfl⟩ := List.append_eq_nil_iff.1 hall
        exact ⟨.last hne hfeed, .nil, .inl rfl⟩
      | cons hfeed htail =>
        obtain ⟨hls, hmore, hend⟩ := ih.1 htail
        refine ⟨.cons hfeed hls, hmore, hend.imp_right ?_⟩
        intro hend line hline
        cases ls with
        | nil =>
          obtain rfl : _ = line := by simpa using hline
          exact List.getLast?_concat
        | cons first ls => exact hend line (by simpa using hline)
    · rintro ⟨h, hmore, hend⟩
      cases h with
      | last hne hfeed =>
        rcases hend with rfl | hend
        · exact .last hne hfeed
        · exact absurd (List.mem_of_getLast? (hend line rfl)) hfeed
      | cons hfeed htail =>
        refine .cons hfeed (ih.2 ⟨htail, hmore, hend.imp_right ?_⟩)
        intro hend line hline
        cases ls with
        | nil => simp at hline
        | cons first ls => exact hend line (by simpa using hline)

/-- A line of a text has no line feed, or one that ends it. -/
theorem exists_content_of_mem_lines {s line : List Char} (h : line ∈ lines s) :
    ∃ content, '\n' ∉ content ∧ (line = content ∨ line = content ++ ['\n']) := by
  have hlines := areLines_lines s
  generalize lines s = ls at h hlines
  induction hlines with
  | nil => simp at h
  | last _ hfeed => exact ⟨line, List.mem_singleton.1 h ▸ hfeed, .inl rfl⟩
  | @cons content hfeed _ _ ih =>
    rcases List.mem_cons.1 h with rfl | h
    · exact ⟨content, hfeed, .inr rfl⟩
    · exact ih h

end Preflight.Text

import Preflight.Proofs.Header.Reading

/-!
# What does not matter to a document

Three things about a text do not matter to what is read from it (`ofText_lineEndings`):
blanks at the ends of the lines up to the closing delimiter, whether lines end with a
line feed or with a carriage return and a line feed, and a byte-order mark. Only the body
is copied as it is, so it keeps its own line endings.

A line is a delimiter, and belongs to its class, whatever blanks it ends with
(`isDelimiter_padLine`, `classify_padLine`); the rest is that cutting a text into lines
does not see the changes either (`lines_flatten_padLines`, `lines_withReturns`).
-/

set_option autoImplicit false

namespace Preflight.Header

open Preflight.Text

/-! ### Blanks at the ends of lines -/

/-- A line with more at its end, before its line feed if it has one. -/
def padLine (pad line : List Char) : List Char :=
  if line.getLast? = some '\n' then line.dropLast ++ (pad ++ ['\n']) else line ++ pad

/-- Lines with pads at the ends of the first of them, one for each until there are no more. -/
def padLines : List (List Char) → List (List Char) → List (List Char)
  | [], ls => ls
  | _, [] => []
  | pad :: pads, line :: ls => padLine pad line :: padLines pads ls

/-- The byte-order mark of a text, if it starts with one. -/
def mark : List Char → List Char
  | [] => []
  | c :: _ => if c = '\ufeff' then [c] else []

/-- A text with pads at the ends of its first lines. -/
def padText (pads : List (List Char)) (text : String) : String :=
  String.ofList
    (mark text.toList ++ (padLines pads (lines (dropMark text.toList))).flatten)

/-- How many lines there are from the first to the one that closes the header, if any does. -/
def headerLength (ls : List (List Char)) : Nat :=
  ls.tail.findIdx isDelimiter + 2

/-- Blanks that do not end a line. -/
def IsPad (pad : List Char) : Prop :=
  ∀ c ∈ pad, isBlank c = true ∧ c ≠ '\n'

variable {pad : List Char} {pads : List (List Char)}

/-- The pad of a line stands before its line feed. -/
theorem padLine_feed (pad content : List Char) :
    padLine pad (content ++ ['\n']) = content ++ (pad ++ ['\n']) := by
  rw [padLine, if_pos List.getLast?_concat, List.dropLast_concat]

/-- The pad of a line without a line feed stands at its end. -/
theorem padLine_of_feed_not_mem (pad : List Char) {line : List Char} (h : '\n' ∉ line) :
    padLine pad line = line ++ pad := by
  rw [padLine, if_neg fun hlast => h (List.mem_of_getLast? hlast)]

/-- A padded line is its content and blanks, like the line itself. -/
theorem exists_padLine (hpad : IsPad pad) (line : List Char) :
    ∃ content blanks blanks', line = content ++ blanks ∧ padLine pad line = content ++ blanks' ∧
      (∀ c ∈ blanks, isBlank c = true) ∧ ∀ c ∈ blanks', isBlank c = true := by
  have hblank : ∀ c ∈ pad, isBlank c = true := fun c hc => (hpad c hc).1
  have hfeed : isBlank '\n' = true := by decide
  by_cases hlast : line.getLast? = some '\n'
  · obtain ⟨content, rfl⟩ := List.getLast?_eq_some_iff.1 hlast
    refine ⟨content, ['\n'], pad ++ ['\n'], rfl, padLine_feed pad content, ?_, ?_⟩
    · simpa using hfeed
    · intro c hc
      rcases List.mem_append.1 hc with hc | hc
      · exact hblank c hc
      · rwa [List.mem_singleton.1 hc]
  · exact ⟨line, [], pad, by simp, by rw [padLine, if_neg hlast], by simp, hblank⟩

/-- Pads make no line a delimiter and keep none from being one. -/
theorem isDelimiter_padLine (hpad : IsPad pad) (line : List Char) :
    isDelimiter (padLine pad line) = isDelimiter line := by
  obtain ⟨content, blanks, blanks', hline, hpadded, hblanks, hblanks'⟩ := exists_padLine hpad line
  rw [hpadded, isDelimiter_append_blank content hblanks', hline,
    isDelimiter_append_blank content hblanks]

/-- The class of a line does not depend on its pad. -/
theorem classify_padLine (hpad : IsPad pad) (line : List Char) :
    Line.classify (padLine pad line) = Line.classify line := by
  obtain ⟨content, blanks, blanks', hline, hpadded, hblanks, hblanks'⟩ := exists_padLine hpad line
  rw [hpadded, classify_append_blank content hblanks', hline,
    classify_append_blank content hblanks]

/-- Reading does not depend on the pads of lines up to the first delimiter. -/
theorem readLines_padLines (hpads : ∀ pad ∈ pads, IsPad pad) (s : Scan) (ls : List (List Char))
    (hlength : pads.length ≤ ls.findIdx isDelimiter + 1) :
    readLines s (padLines pads ls) = readLines s ls := by
  induction pads generalizing s ls with
  | nil => rw [padLines]
  | cons pad pads ih =>
    have hpad : IsPad pad := hpads pad List.mem_cons_self
    cases ls with
    | nil => rfl
    | cons line ls =>
      rw [padLines, readLines, readLines, isDelimiter_padLine hpad, classify_withoutEnding,
        classify_withoutEnding, classify_padLine hpad]
      rw [List.findIdx_cons] at hlength
      by_cases hline : isDelimiter line = true
      · -- the closing delimiter has the last pad, so the body has none
        have hlast : pads = [] := by simpa [hline] using hlength
        rw [if_pos hline, if_pos hline, hlast, padLines]
      · rw [if_neg hline, if_neg hline]
        refine ih (fun pad' hpad' => hpads pad' (List.mem_cons_of_mem _ hpad')) _ ls ?_
        simpa [hline] using hlength

/-- Lines with pads are lines of a text. -/
theorem areLines_padLines (hpads : ∀ pad ∈ pads, IsPad pad) {ls : List (List Char)}
    (h : AreLines ls) : AreLines (padLines pads ls) := by
  induction pads generalizing ls with
  | nil => rwa [padLines]
  | cons pad pads ih =>
    have hpad : '\n' ∉ pad := fun hmem => (hpads pad List.mem_cons_self '\n' hmem).2 rfl
    have hrest := fun pad' hpad' => hpads pad' (List.mem_cons_of_mem pad hpad')
    cases h with
    | nil => exact .nil
    | last hne hfeed =>
      have hnil : padLines pads [] = [] := by cases pads <;> rfl
      rw [padLines, padLine_of_feed_not_mem pad hfeed, hnil]
      exact .last (List.append_ne_nil_of_left_ne_nil hne pad) (by simp [hfeed, hpad])
    | @cons content hfeed ls htail =>
      rw [padLines, padLine_feed, ← List.append_assoc]
      exact .cons (by simp [hfeed, hpad]) (ih hrest htail)

/-- Padded lines are the lines of the text that they make up. -/
theorem lines_flatten_padLines (hpads : ∀ pad ∈ pads, IsPad pad) (s : List Char) :
    lines (padLines pads (lines s)).flatten = padLines pads (lines s) :=
  (areLines_padLines hpads (areLines_lines s)).lines_flatten

/-! ### Marks -/

/-- A text without a mark is left as it is. -/
theorem dropMark_of_head?_ne {s : List Char} (h : s.head? ≠ some '\ufeff') : dropMark s = s := by
  cases s with
  | nil => rfl
  | cons c s => rw [dropMark, if_neg (by simpa using h)]

/-- Dropping the mark of a text leaves what stands in place of the rest, if this does not bring a mark
itself. -/
theorem dropMark_mark_append (s : List Char) {r : List Char}
    (hr : s.head? ≠ some '\ufeff' → r.head? ≠ some '\ufeff') : dropMark (mark s ++ r) = r := by
  cases s with
  | nil => exact dropMark_of_head?_ne (hr (by simp))
  | cons c s =>
    by_cases hc : c = '\ufeff'
    · simp [mark, dropMark, hc]
    · rw [mark, if_neg hc, List.nil_append]
      exact dropMark_of_head?_ne (hr (by simpa using hc))

/-- A pad makes no mark at the start of a text. -/
theorem head?_padLines_ne (hpads : ∀ pad ∈ pads, IsPad pad) {s : List Char}
    (h : s.head? ≠ some '\ufeff') : (padLines pads (lines s)).flatten.head? ≠ some '\ufeff' := by
  cases pads with
  | nil => rwa [padLines, flatten_lines]
  | cons pad pads =>
    have hpad : pad.head? ≠ some '\ufeff' := by
      intro hhead
      have hblank := (hpads pad List.mem_cons_self _ (List.mem_of_head? hhead)).1
      exact absurd hblank (by decide)
    rw [← flatten_lines s] at h
    have hlines := areLines_lines s
    generalize lines s = ls at h hlines
    cases hlines with
    | nil => simp [padLines]
    | @last line hne hfeed =>
      obtain ⟨c, line, rfl⟩ := List.exists_cons_of_ne_nil hne
      rw [padLines, padLine_of_feed_not_mem pad hfeed]
      simpa using h
    | @cons content hfeed ls htail =>
      rw [padLines, padLine_feed]
      cases content with
      | nil => cases pad <;> simp_all
      | cons c content => simpa using h

/-- Blanks at the ends of the lines of the header do not matter. -/
theorem ofText_padText (hpads : ∀ pad ∈ pads, IsPad pad) {text : String}
    (hlength : pads.length ≤ headerLength (lines (dropMark text.toList))) :
    Document.ofText (padText pads text) = Document.ofText text := by
  have hmark : dropMark (padText pads text).toList =
      (padLines pads (lines (dropMark text.toList))).flatten := by
    rw [padText, String.toList_ofList]
    refine dropMark_mark_append _ fun hhead => ?_
    rw [dropMark_of_head?_ne hhead]
    exact head?_padLines_ne hpads hhead
  rw [Document.ofText, Document.ofText, hmark, lines_flatten_padLines hpads]
  generalize lines (dropMark text.toList) = ls at hlength
  cases pads with
  | nil => rw [padLines]
  | cons pad pads =>
    cases ls with
    | nil => rfl
    | cons first rest =>
      have hrest : pads.length ≤ rest.findIdx isDelimiter + 1 := by
        simpa [headerLength] using hlength
      simp only [padLines, isDelimiter_padLine (hpads pad List.mem_cons_self),
        readLines_padLines (fun pad' hpad' => hpads pad' (List.mem_cons_of_mem _ hpad')) _ rest
          hrest]

/-! ### Carriage returns -/

/-- A text with a carriage return before each line feed. -/
def withReturns (s : List Char) : List Char :=
  s.flatMap fun c => if c = '\n' then ['\r', '\n'] else [c]

/-- A text without line feeds gets no carriage returns. -/
theorem withReturns_of_feed_not_mem {s : List Char} (h : '\n' ∉ s) : withReturns s = s := by
  induction s with
  | nil => rfl
  | cons c s ih =>
    rw [List.mem_cons, not_or] at h
    rw [withReturns, List.flatMap_cons, if_neg (Ne.symm h.1), ← withReturns, ih h.2,
      List.singleton_append]

/-- A line gets a carriage return before its line feed. -/
theorem withReturns_feed {content : List Char} (h : '\n' ∉ content) :
    withReturns (content ++ ['\n']) = content ++ ['\r', '\n'] := by
  rw [withReturns, List.flatMap_append, ← withReturns, withReturns_of_feed_not_mem h]
  rfl

/-- Carriage returns are set line by line. -/
theorem withReturns_flatten (ls : List (List Char)) :
    withReturns ls.flatten = (ls.map withReturns).flatten := by
  induction ls with
  | nil => rfl
  | cons line ls ih =>
    rw [List.flatten_cons, List.map_cons, List.flatten_cons, ← ih]
    exact List.flatMap_append

/-- Lines with carriage returns are lines of a text. -/
theorem areLines_map_withReturns {ls : List (List Char)} (h : AreLines ls) :
    AreLines (ls.map withReturns) := by
  induction h with
  | nil => exact .nil
  | last hne hfeed =>
    rw [List.map_singleton, withReturns_of_feed_not_mem hfeed]
    exact .last hne hfeed
  | @cons content hfeed ls _ ih =>
    have hreturn : content ++ ['\r', '\n'] = (content ++ ['\r']) ++ ['\n'] := by simp
    rw [List.map_cons, withReturns_feed hfeed, hreturn]
    exact .cons (by simp [hfeed]) ih

/-- A text with carriage returns is cut into the same lines, with carriage returns. -/
theorem lines_withReturns (s : List Char) : lines (withReturns s) = (lines s).map withReturns := by
  rw [← (areLines_map_withReturns (areLines_lines s)).lines_flatten, ← withReturns_flatten,
    flatten_lines]

/-- Carriage returns and the mark do not meet. -/
theorem dropMark_withReturns (s : List Char) :
    dropMark (withReturns s) = withReturns (dropMark s) := by
  cases s with
  | nil => rfl
  | cons c s =>
    by_cases hfeed : c = '\n'
    · simp [withReturns, dropMark, hfeed]
    · by_cases hmark : c = '\ufeff' <;> simp [withReturns, dropMark, hfeed, hmark]

/-- A line with a carriage return is what the line is. -/
theorem withReturns_alike {s line : List Char} (h : line ∈ lines s) :
    isDelimiter (withReturns line) = isDelimiter line ∧
      Line.classify (withReturns line) = Line.classify line := by
  obtain ⟨content, hfeed, rfl | rfl⟩ := exists_content_of_mem_lines h
  · rw [withReturns_of_feed_not_mem hfeed]
    exact ⟨rfl, rfl⟩
  · have hblanks : ∀ c ∈ ['\r', '\n'], isBlank c = true :=
      List.forall_mem_cons.2 ⟨by decide, List.forall_mem_singleton.2 (by decide)⟩
    rw [withReturns_feed hfeed, isDelimiter_append_feed, classify_append_feed]
    exact ⟨isDelimiter_append_blank content hblanks, classify_append_blank content hblanks⟩

/-- A document with a carriage return before each line feed of its body. -/
def Document.withReturns (doc : Document) : Document :=
  ⟨doc.header, String.ofList (Header.withReturns doc.body.toList)⟩

/-- Lines that keep their classes with carriage returns are read as before, with carriage returns in the
body. -/
theorem readLines_map_withReturns {ls : List (List Char)}
    (hls : ∀ line ∈ ls, isDelimiter (withReturns line) = isDelimiter line ∧
      Line.classify (withReturns line) = Line.classify line) (s : Scan) :
    readLines s (ls.map withReturns) = (readLines s ls).map Document.withReturns := by
  induction ls generalizing s with
  | nil => rfl
  | cons line ls ih =>
    obtain ⟨hdelimiter, hclass⟩ := hls line List.mem_cons_self
    rw [List.map_cons, readLines, readLines, classify_withoutEnding, classify_withoutEnding,
      hdelimiter, hclass]
    by_cases hline : isDelimiter line = true
    · rw [if_pos hline, if_pos hline, Except.map, Document.withReturns, String.toList_ofList,
        withReturns_flatten]
    · rw [if_neg hline, if_neg hline]
      exact ih (fun l hl => hls l (List.mem_cons_of_mem _ hl)) _

/-- A text with carriage returns is read as the same document, with carriage returns in the body. -/
theorem ofText_withReturns (text : String) :
    Document.ofText (String.ofList (withReturns text.toList)) =
      (Document.ofText text).map Document.withReturns := by
  have halike : ∀ line ∈ lines (dropMark text.toList),
      isDelimiter (withReturns line) = isDelimiter line ∧
        Line.classify (withReturns line) = Line.classify line :=
    fun line hline => withReturns_alike hline
  rw [Document.ofText, Document.ofText, String.toList_ofList, dropMark_withReturns,
    lines_withReturns]
  generalize lines (dropMark text.toList) = ls at halike
  cases ls with
  | nil => rfl
  | cons first rest =>
    simp only [List.map_cons, (halike first List.mem_cons_self).1]
    by_cases hfirst : isDelimiter first = true
    · rw [if_pos hfirst, if_pos hfirst]
      exact readLines_map_withReturns (fun l hl => halike l (List.mem_cons_of_mem _ hl)) _
    · rw [if_neg hfirst, if_neg hfirst]
      rfl

/-- A mark at the start of a text does not change what is read. -/
theorem ofText_mark {text : String} (h : text.toList.head? ≠ some '\ufeff') :
    Document.ofText ("\ufeff" ++ text) = Document.ofText text := by
  have hmark : dropMark ("\ufeff" ++ text).toList = dropMark text.toList := by
    rw [String.toList_append, dropMark_of_head?_ne h]
    rfl
  rw [Document.ofText, Document.ofText, hmark]

/-- **What does not matter to a document.** Blanks other than line feeds at the ends of any lines
up to the closing delimiter change nothing; carriage returns before all line feeds come back in the
body only; and a mark before a text without one changes nothing. -/
theorem ofText_lineEndings (text : String) :
    (∀ pads : List (List Char), (∀ pad ∈ pads, ∀ c ∈ pad, isBlank c = true ∧ c ≠ '\n') →
      pads.length ≤ headerLength (lines (dropMark text.toList)) →
      Document.ofText (padText pads text) = Document.ofText text) ∧
    Document.ofText (String.ofList (withReturns text.toList)) =
      (Document.ofText text).map Document.withReturns ∧
    (text.toList.head? ≠ some '\ufeff' →
      Document.ofText ("\ufeff" ++ text) = Document.ofText text) :=
  ⟨fun _ hpads hlength => ofText_padText hpads hlength, ofText_withReturns text, ofText_mark⟩

/-- A document with an item and a body. -/
def oneItem : String :=
  "---\nk:\n  - a\n---\nb\n"

/-- Carriage returns and other blanks at the ends of the delimiters, of a key and of an item. -/
theorem ofText_lineEndings_of_oneItem :
    Document.ofText "---\r\nk:\u00a0\t\n  - a\u2003\n---\r\nb\n" = Document.ofText oneItem ∧
      Document.ofText "---\r\nk:\r\n  - a\r\n---\r\nb\r\n" =
        .ok ⟨.ofList [("k", .list ["a"])], "b\r\n"⟩ ∧
      Document.ofText ("\ufeff" ++ oneItem) = Document.ofText oneItem := by
  obtain ⟨hpads, hreturns, hmark⟩ := ofText_lineEndings oneItem
  have hpadded : padText [['\r'], ['\u00a0', '\t'], ['\u2003'], ['\r']] oneItem =
      "---\r\nk:\u00a0\t\n  - a\u2003\n---\r\nb\n" := by decide +kernel
  have hblank : ∀ pad ∈ [['\r'], ['\u00a0', '\t'], ['\u2003'], ['\r']],
      ∀ c ∈ pad, isBlank c = true ∧ c ≠ '\n' := by
    simp only [List.forall_mem_cons, List.not_mem_nil, false_implies, implies_true, and_true]
    decide
  have hreturned : String.ofList (withReturns oneItem.toList) =
      "---\r\nk:\r\n  - a\r\n---\r\nb\r\n" := by decide +kernel
  have hread : Document.ofText oneItem = .ok ⟨.ofList [("k", .list ["a"])], "b\n"⟩ := by
    decide +kernel
  refine ⟨?_, ?_, hmark (by decide +kernel)⟩
  · rw [← hpadded]
    exact hpads _ hblank (by decide +kernel)
  · rw [← hreturned, hreturns, hread]
    decide +kernel

end Preflight.Header

import Preflight.Proofs.Header.Reading

/-!
# Where a document is cut

A document is cut at its first line, if that is a delimiter, and at the first later line
that is one (`Cut`); where it cannot be cut, it is known which of the two is missing
(`ofText_cut`). The fields are those of the lines between the two delimiters and of
nothing else, and the body is all that follows the closing one.

So another body may be put in the place of a body without any other change, unless the
closing delimiter is the end of the text and has no line feed of its own: then what
is put after it goes on with its line.
-/

set_option autoImplicit false

namespace Preflight.Header

open Preflight.Text

/-- A delimiter is three hyphens with nothing but blanks after them. -/
theorem isDelimiter_iff (line : List Char) :
    isDelimiter line = true ↔ trimEnd line = "---".toList :=
  beq_iff_eq

/-- A line that is no delimiter is not three hyphens, blanks at its end aside. -/
theorem isDelimiter_eq_false_iff (line : List Char) :
    isDelimiter line = false ↔ trimEnd line ≠ "---".toList := by
  rw [← Bool.not_eq_true, isDelimiter_iff]

/-- The fields that the lines between the delimiters bind. -/
def fieldsOf (between : List (List Char)) : Descriptor :=
  ((between.map Line.classify).foldl Scan.step .start).fields

/-- A text cut at its delimiters: the opening line, the lines up to the first that closes the
header, that line, and the lines after it. -/
structure Cut (text : String) where
  opening : List Char
  between : List (List Char)
  closing : List Char
  after : List (List Char)
  lines_eq : lines (dropMark text.toList) = (opening :: (between ++ [closing])) ++ after
  opening_eq : trimEnd opening = "---".toList
  between_ne : ∀ line ∈ between, trimEnd line ≠ "---".toList
  closing_eq : trimEnd closing = "---".toList

namespace Cut

variable {text : String} (cut : Cut text)

/-- The lines of the header with both delimiters. -/
def header : List (List Char) :=
  cut.opening :: (cut.between ++ [cut.closing])

/-- What is read from a text that is cut in this way. -/
def document : Document :=
  ⟨fieldsOf cut.between, String.ofList cut.after.flatten⟩

/-- The header and the body are the text, without a mark. -/
theorem header_flatten_append :
    dropMark text.toList = cut.header.flatten ++ cut.document.body.toList := by
  rw [document, String.toList_ofList, ← List.flatten_append, header, ← cut.lines_eq,
    flatten_lines]

/-- The header of a cut is made of whole lines. -/
theorem areLines_header : AreLines cut.header := by
  have hlines := areLines_lines (dropMark text.toList)
  rw [cut.lines_eq, areLines_append_iff] at hlines
  exact hlines.1

/-- The header of a cut ends with its closing line. -/
theorem getLast?_header : cut.header.getLast? = some cut.closing := by
  rw [header, ← List.cons_append, List.getLast?_concat]

/-- The header of a cut is not empty. -/
theorem header_flatten_ne_nil : cut.header.flatten ≠ [] := by
  have hopening : cut.opening ≠ [] := by
    intro h
    exact absurd (h ▸ cut.opening_eq) (by decide)
  rw [header, List.flatten_cons]
  exact List.append_ne_nil_of_left_ne_nil hopening _

end Cut

/-! ### The results of reading -/

/-- Reading lines fails exactly if none of them is a delimiter. -/
theorem readLines_eq_error_iff (s : Scan) (ls : List (List Char)) (e : HeaderError) :
    readLines s ls = .error e ↔ e = .unterminated ∧ ∀ line ∈ ls, isDelimiter line = false := by
  induction ls generalizing s with
  | nil =>
    rw [readLines, Except.error.injEq, eq_comm]
    simp
  | cons line ls ih =>
    rw [readLines]
    by_cases hline : isDelimiter line = true
    · simp [hline]
    · rw [if_neg hline, ih]
      simp [hline]

/-- The opening delimiter is missing exactly if the first line is none. -/
theorem ofText_eq_missingOpening_iff (text : String) :
    Document.ofText text = .error .missingOpening ↔
      ∀ first ∈ (lines (dropMark text.toList)).head?, trimEnd first ≠ "---".toList := by
  rw [Document.ofText]
  cases lines (dropMark text.toList) with
  | nil => simp
  | cons first rest =>
    simp only [List.head?_cons, Option.mem_some_iff, forall_eq', ← isDelimiter_eq_false_iff]
    by_cases hfirst : isDelimiter first = true
    · simp [hfirst, readLines_eq_error_iff]
    · simp [hfirst]

/-- A header is unterminated exactly if it is opened and no later line is a delimiter. -/
theorem ofText_eq_unterminated_iff (text : String) :
    Document.ofText text = .error .unterminated ↔
      ∃ first rest, lines (dropMark text.toList) = first :: rest ∧
        trimEnd first = "---".toList ∧ ∀ line ∈ rest, trimEnd line ≠ "---".toList := by
  rw [Document.ofText]
  cases lines (dropMark text.toList) with
  | nil => simp
  | cons first rest =>
    simp only [← isDelimiter_iff, ← isDelimiter_eq_false_iff]
    by_cases hfirst : isDelimiter first = true
    · simp [hfirst, readLines_eq_error_iff]
    · simp [hfirst]

/-- A text is read as a document exactly if it can be cut into it. -/
theorem ofText_eq_ok_iff (text : String) (doc : Document) :
    Document.ofText text = .ok doc ↔ ∃ cut : Cut text, doc = cut.document := by
  rw [Document.ofText]
  constructor
  · intro h
    cases hlines : lines (dropMark text.toList) with
    | nil => simp [hlines] at h
    | cons first rest =>
      by_cases hfirst : isDelimiter first = true
      · simp only [hlines, hfirst, if_true, readLines_eq_ok_iff] at h
        obtain ⟨between, closing, after, rfl, hbetween, hclosing, rfl⟩ := h
        refine ⟨⟨first, between, closing, after, ?_, (isDelimiter_iff first).1 hfirst, ?_,
          (isDelimiter_iff closing).1 hclosing⟩, rfl⟩
        · simpa using hlines
        · exact fun line hline => (isDelimiter_eq_false_iff line).1 (hbetween line hline)
      · simp [hlines, hfirst] at h
  · rintro ⟨cut, rfl⟩
    have hopening := (isDelimiter_iff _).2 cut.opening_eq
    simp only [cut.lines_eq, List.cons_append, hopening, if_true, readLines_eq_ok_iff]
    refine ⟨cut.between, cut.closing, cut.after, by simp, ?_,
      (isDelimiter_iff _).2 cut.closing_eq, rfl⟩
    exact fun line hline => (isDelimiter_eq_false_iff line).2 (cut.between_ne line hline)

/-- A document with given header lines and a given body. -/
def documentText (header : List (List Char)) (body : String) : String :=
  String.ofList (delimiterLine ++ (header.flatMap fun line => line ++ ['\n']) ++ delimiterLine) ++
    body

/-- A delimiter line is the first line of what it starts. -/
theorem lines_delimiterLine_append (rest : List Char) :
    lines (delimiterLine ++ rest) = delimiterLine :: lines rest :=
  @lines_append_feed ['-', '-', '-'] (by decide) rest

/-- Header lines that do not close the header are read as they are. -/
theorem ofText_documentText {header : List (List Char)}
    (hheader : ∀ line ∈ header, '\n' ∉ line ∧ isDelimiter line = false) (body : String) :
    Document.ofText (documentText header body) = .ok ⟨fieldsOf header, body⟩ := by
  have htext : (documentText header body).toList =
      delimiterLine ++ ((header.flatMap fun line => line ++ ['\n']) ++
        (delimiterLine ++ body.toList)) := by
    rw [documentText, String.toList_append, String.toList_ofList, List.append_assoc,
      List.append_assoc]
  -- the text starts with a dash, so there is no mark to drop
  have hmark : dropMark (documentText header body).toList = (documentText header body).toList := by
    rw [htext]
    rfl
  have hlines : lines (dropMark (documentText header body).toList) =
      (delimiterLine :: (header.map (fun line => line ++ ['\n']) ++ [delimiterLine])) ++
        lines body.toList := by
    rw [hmark, htext, lines_delimiterLine_append,
      lines_flatMap_feed_append header fun line hline => (hheader line hline).1,
      lines_delimiterLine_append]
    simp
  have hfields : fieldsOf (header.map fun line => line ++ ['\n']) = fieldsOf header := by
    rw [fieldsOf, fieldsOf, List.map_map]
    congr 2
    exact List.map_congr_left fun line _ => classify_append_feed line
  rw [ofText_eq_ok_iff]
  refine ⟨⟨delimiterLine, header.map fun line => line ++ ['\n'], delimiterLine,
    lines body.toList, hlines, by decide, ?_, by decide⟩, ?_⟩
  · intro line hline
    obtain ⟨content, hcontent, rfl⟩ := List.mem_map.1 hline
    rw [← isDelimiter_eq_false_iff, isDelimiter_append_feed]
    exact (hheader content hcontent).2
  · rw [Cut.document, hfields, flatten_lines, String.ofList_toList]

/-! ### Another body -/

/-- A mark is dropped from the first part of a text. -/
theorem dropMark_append {s : List Char} (h : s ≠ []) (r : List Char) :
    dropMark (s ++ r) = dropMark s ++ r := by
  obtain ⟨c, s, rfl⟩ := List.exists_cons_of_ne_nil h
  by_cases hc : c = '\ufeff' <;> simp [dropMark, hc]

/-- Dropping a mark makes no text longer. -/
theorem length_dropMark_le (s : List Char) : (dropMark s).length ≤ s.length := by
  cases s with
  | nil => exact Nat.le_refl _
  | cons c s => by_cases hc : c = '\ufeff' <;> simp [dropMark, hc]

/-- What stands before the body is the header with both delimiters, after a mark. -/
theorem Cut.dropMark_head {text head : String} (cut : Cut text)
    (hhead : text = head ++ cut.document.body) :
    head.toList ≠ [] ∧ dropMark head.toList = cut.header.flatten := by
  have htext : text.toList = head.toList ++ cut.document.body.toList := by
    conv_lhs => rw [hhead, String.toList_append]
  have hcut := cut.header_flatten_append
  rw [htext] at hcut
  have hne : head.toList ≠ [] := by
    intro h
    have hlength := length_dropMark_le (head.toList ++ cut.document.body.toList)
    rw [hcut, h, List.nil_append, List.length_append] at hlength
    exact cut.header_flatten_ne_nil (List.length_eq_zero_iff.1 (by omega))
  rw [dropMark_append hne] at hcut
  exact ⟨hne, List.append_cancel_right hcut⟩

/-- Exactly if the closing delimiter has its line feed may any other body follow it. -/
theorem Cut.ofText_append_iff {text head : String} (cut : Cut text)
    (hhead : text = head ++ cut.document.body) (other : String) :
    Document.ofText (head ++ other) = .ok ⟨cut.document.header, other⟩ ↔
      other = "" ∨ cut.closing.getLast? = some '\n' := by
  obtain ⟨hne, hmark⟩ := cut.dropMark_head hhead
  have hother : dropMark (head ++ other).toList = cut.header.flatten ++ other.toList := by
    rw [String.toList_append, dropMark_append hne, hmark]
  have hlines : other = "" ∨ cut.closing.getLast? = some '\n' ↔
      AreLines (cut.header ++ lines other.toList) := by
    have hempty : lines other.toList = [] ↔ other = "" := by
      rw [← String.toList_eq_nil_iff]
      constructor
      · intro h
        rw [← flatten_lines other.toList, h, List.flatten_nil]
      · intro h
        rw [h, lines]
    rw [areLines_append_iff, cut.getLast?_header, hempty]
    simp [cut.areLines_header, areLines_lines]
  rw [hlines, ofText_eq_ok_iff]
  constructor
  · rintro ⟨cut', hdocument⟩
    have hbody : cut'.document.body = other := by rw [← hdocument]
    have hcut' := cut'.header_flatten_append
    rw [hother, hbody] at hcut'
    -- both texts start with the same header, and it is cut into lines in one way only
    have hheader : cut.header = cut'.header := by
      rw [← cut.areLines_header.lines_flatten, List.append_cancel_right hcut',
        cut'.areLines_header.lines_flatten]
    have hareLines := areLines_lines (dropMark (head ++ other).toList)
    rw [cut'.lines_eq, ← Cut.header, ← hheader] at hareLines
    have hafter : cut'.after = lines cut'.document.body.toList := by
      rw [Cut.document, String.toList_ofList]
      exact (((areLines_append_iff _ _).1 hareLines).2.1.lines_flatten).symm
    rwa [hafter, hbody] at hareLines
  · intro h
    refine ⟨⟨cut.opening, cut.between, cut.closing, lines other.toList, ?_, cut.opening_eq,
      cut.between_ne, cut.closing_eq⟩, ?_⟩
    · have hflatten := h.lines_flatten
      rw [List.flatten_append, flatten_lines] at hflatten
      rw [hother, hflatten]
      rfl
    · simp only [Cut.document, flatten_lines, String.ofList_toList]

/-- **Where a document is cut.** A text has no opening delimiter exactly if its first line is none,
no closing one exactly if no later line is one, and otherwise it is cut at the first that is: the
fields are those of the lines between the two, and the body is what follows. Another body may stand
in its place exactly if it is empty or the closing delimiter has its line feed. -/
theorem ofText_cut (text : String) :
    (Document.ofText text = .error .missingOpening ↔
      ∀ first ∈ (lines (dropMark text.toList)).head?, trimEnd first ≠ "---".toList) ∧
    (Document.ofText text = .error .unterminated ↔
      ∃ first rest, lines (dropMark text.toList) = first :: rest ∧
        trimEnd first = "---".toList ∧ ∀ line ∈ rest, trimEnd line ≠ "---".toList) ∧
    (∀ doc, Document.ofText text = .ok doc ↔ ∃ cut : Cut text, doc = cut.document) ∧
    ∀ cut : Cut text,
      dropMark text.toList = cut.header.flatten ++ cut.document.body.toList ∧
      ∀ head, text = head ++ cut.document.body → ∀ other,
        Document.ofText (head ++ other) = .ok ⟨cut.document.header, other⟩ ↔
          other = "" ∨ cut.closing.getLast? = some '\n' :=
  ⟨ofText_eq_missingOpening_iff text, ofText_eq_unterminated_iff text, ofText_eq_ok_iff text,
    fun cut => ⟨cut.header_flatten_append, fun _ hhead other => cut.ofText_append_iff hhead other⟩⟩

/-- A marked text with what looks like delimiters in its header and in its body. -/
def lookAlikes : String :=
  "\ufeff---\r\n  ---\nname: ä\n--- \nbody\n---\n"

def lookAlikesCut : Cut lookAlikes where
  opening := "---\r\n".toList
  between := ["  ---\n".toList, "name: ä\n".toList]
  closing := "--- \n".toList
  after := ["body\n".toList, "---\n".toList]
  lines_eq := by decide +kernel
  opening_eq := by decide +kernel
  between_ne := by decide +kernel
  closing_eq := by decide +kernel

/-- What looks like a delimiter does not move the cut, and another body may follow. -/
theorem ofText_cut_of_lookAlikes :
    Document.ofText lookAlikes = .ok ⟨.ofList [("name", .scalar "ä")], "body\n---\n"⟩ ∧
      Document.ofText ("\ufeff---\r\n  ---\nname: ä\n--- \n" ++ "---\n\n") =
        .ok ⟨.ofList [("name", .scalar "ä")], "---\n\n"⟩ := by
  have hdocument : lookAlikesCut.document =
      ⟨.ofList [("name", .scalar "ä")], "body\n---\n"⟩ := by decide +kernel
  have hbody : lookAlikes =
      "\ufeff---\r\n  ---\nname: ä\n--- \n" ++ lookAlikesCut.document.body := by decide +kernel
  constructor
  · exact ((ofText_cut lookAlikes).2.2.1 _).2 ⟨lookAlikesCut, hdocument.symm⟩
  · have hother := (((ofText_cut lookAlikes).2.2.2 lookAlikesCut).2 _ hbody "---\n\n").2
      (.inr (by decide +kernel))
    rwa [hdocument] at hother

/-- What follows a closing delimiter without a line feed goes on with its line. -/
theorem ofText_unended_closing :
    Document.ofText "---\n---" = .ok ⟨.empty, ""⟩ ∧ "---\n---" = "---\n---" ++ "" ∧
      Document.ofText ("---\n---" ++ "x") = .error .unterminated ∧
      Document.ofText ("---\n---" ++ "x") ≠ .ok ⟨.empty, "x"⟩ := by
  decide +kernel

end Preflight.Header

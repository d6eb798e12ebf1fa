import Preflight.Proofs.Header.LastKeyLine
import Preflight.Proofs.Header.ListSpellings

/-!
# Which fields can be read

The fields of a header have keys of key characters, values without line feeds and lists
without empty items (`IsReadable`). This holds not only at the end but after every line,
and with it goes what the next line relies on: an open list or text is what its key is
bound to, so that extending it is extending what was bound (`Open.IsBoundIn`). One line
keeps both, and hence any number of lines does.

Nothing more can be said about the fields alone: whatever has such keys and values is
what some text is read as (`exists_ofText_of_isReadable`). The text has a line for each
key, and each item between quotes on a line of its own.
-/

set_option autoImplicit false

namespace Preflight.Header

open Preflight.Text

/-- Fields with keys of ASCII letters, digits, hyphens, underscores and full stops, without line feeds in
their values and without empty items in their lists. -/
structure IsReadable (fields : Descriptor) : Prop where
  keys : ∀ name ∈ fields.keys, name ≠ "" ∧
    ∀ c ∈ name.toList, c.isAlphanum = true ∨ c = '-' ∨ c = '_' ∨ c = '.'
  scalars : ∀ name text, fields.find? name = some (.scalar text) → '\n' ∉ text.toList
  lists : ∀ name items, fields.find? name = some (.list items) →
    ∀ item ∈ items, item ≠ "" ∧ '\n' ∉ item.toList

/-- Fields are readable exactly if they are well formed binding by binding. -/
theorem isReadable_iff (fields : Descriptor) :
    IsReadable fields ↔ Descriptor.WellFormed fields := by
  constructor
  · intro h name value hfind
    obtain ⟨hne, hchars⟩ := h.keys name ((fields.mem_keys_iff name).2 ⟨value, hfind⟩)
    refine ⟨(isKey_iff _).2 ⟨by simpa using hne, fun c hc => (isKeyChar_iff c).2 (hchars c hc)⟩, ?_⟩
    cases value with
    | scalar text => exact h.scalars name text hfind
    | list items => exact h.lists name items hfind
  · intro h
    refine ⟨fun name hname => ?_, fun name text hfind => (h name _ hfind).2,
      fun name items hfind => (h name _ hfind).2⟩
    obtain ⟨value, hfind⟩ := (fields.mem_keys_iff name).1 hname
    obtain ⟨hne, hchars⟩ := (isKey_iff _).1 (h name value hfind).1
    exact ⟨by simpa using hne, fun c hc => (isKeyChar_iff c).1 (hchars c hc)⟩

/-! ### The state after some lines -/

/-- The state after some more lines of a header. -/
def Scan.after (s : Scan) (ls : List (List Char)) : Scan :=
  ls.foldl (fun s line => s.step (Line.classify (withoutEnding line))) s

/-- The state after lines is reached by one step for each. -/
theorem after_eq_foldl (s : Scan) (ls : List (List Char)) :
    s.after ls = (ls.map Line.classify).foldl Scan.step s := by
  simp only [Scan.after, classify_withoutEnding, List.foldl_map]

/-- Reading goes on from the state after the lines that were read. -/
theorem readLines_append {before : List (List Char)}
    (hbefore : ∀ line ∈ before, isDelimiter line = false) (s : Scan) (rest : List (List Char)) :
    readLines s (before ++ rest) = readLines (s.after before) rest := by
  induction before generalizing s with
  | nil => rfl
  | cons line before ih =>
    obtain ⟨hline, hbefore⟩ := List.forall_mem_cons.1 hbefore
    rw [List.cons_append, readLines, if_neg (by simp [hline]), ih hbefore]
    rfl

/-! ### What is open -/

/-- What is open is what its key is bound to. -/
def Open.IsBoundIn (fields : Descriptor) : Open → Prop
  | .nothing => True
  | .list name items => fields.find? (String.ofList name) = some (.list (items.map String.ofList))
  | .text name acc => fields.find? (String.ofList name) = some (.scalar (String.ofList acc))

/-- A key that has just been bound is in the fields. -/
theorem isBoundIn_bindKey (s : Scan) (name value : List Char) :
    (s.bindKey name value).current.IsBoundIn (s.bindKey name value).fields := by
  rw [Scan.bindKey]
  cases ValueShape.classify value with
  | inlineList items => trivial
  | blockList => exact find?_insert_self _ _ _
  | blockText => exact find?_insert_self _ _ _
  | scalar text => trivial

/-- A line extends what is open and what its key is bound to alike, or it closes it. -/
theorem isBoundIn_step {s : Scan} (hs : s.current.IsBoundIn s.fields) (line : Line) :
    (s.step line).current.IsBoundIn (s.step line).fields := by
  obtain ⟨fields, current⟩ := s
  -- an item extends a list and indented text a text; a blank line leaves a text open
  cases line with
  | key name value => exact isBoundIn_bindKey _ name value
  | item text =>
    cases current with
    | list name items =>
      rw [Scan.step]
      by_cases hempty : (unquote text).isEmpty = true
      · simpa [hempty] using hs
      · simp only [hempty]
        exact find?_insert_self _ _ _
    | text name acc => trivial
    | nothing => trivial
  | indented more =>
    cases current with
    | text name acc => exact find?_insert_self _ _ _
    | list name items => trivial
    | nothing => trivial
  | blank =>
    cases current with
    | text name acc => exact hs
    | list name items => trivial
    | nothing => trivial
  | other => trivial

/-- The key that is open is in the fields after any lines. -/
theorem isBoundIn_after {s : Scan} (hs : s.current.IsBoundIn s.fields) (ls : List (List Char)) :
    (s.after ls).current.IsBoundIn (s.after ls).fields := by
  induction ls generalizing s with
  | nil => exact hs
  | cons line ls ih => exact ih (isBoundIn_step hs _)

/-- After any lines of a text the fields are readable. -/
theorem isReadable_after {s : List Char} {ls : List (List Char)} (h : ∀ line ∈ ls, line ∈ lines s) :
    IsReadable (Scan.start.after ls).fields := by
  rw [isReadable_iff, after_eq_foldl]
  exact (wellFormed_foldl_step (fun line hline => feed_not_mem_withoutEnding (h line hline))
    wellFormed_start).fields

/-! ### Texts that are read as given fields -/

/-- The lines of a field, with each item of a list between quotes. -/
def quotedLines (name : String) : FieldValue → List (List Char)
  | .scalar text => fieldLines name (.scalar text)
  | .list items => blockSpelling name.toList (items.map String.toList)

/-- The lines of a quoted field have no line feed inside and do not close the header. -/
theorem quotedLines_lines {name : String} {value : FieldValue} (hname : isKey name.toList = true)
    (hvalue : value.WellFormed) :
    ∀ line ∈ quotedLines name value, '\n' ∉ line ∧ isDelimiter line = false := by
  cases value with
  | scalar text =>
    intro line hline
    exact ⟨feed_not_mem_fieldLines hname hvalue line hline, isDelimiter_fieldLines name (.scalar text) line hline⟩
  | list items =>
    exact blockSpelling_lines hname (List.forall_mem_map.2 fun item hitem => (hvalue item hitem).2)

/-- The lines of a field bind its key to its value, after any other lines. -/
theorem fieldsOf_quotedLines (before : List (List Char)) {name : String} {value : FieldValue}
    (hname : isKey name.toList = true) (hvalue : value.WellFormed) :
    fieldsOf (before ++ quotedLines name value) = (fieldsOf before).insert name value := by
  cases value with
  | scalar text =>
    rw [fieldsOf, List.map_append, List.foldl_append]
    exact foldl_step_fieldLines _ hname (.scalar text)
  | list items =>
    have hitems : ∀ item ∈ items.map String.toList, item ≠ [] :=
      List.forall_mem_map.2 fun item hitem => by simpa using (hvalue item hitem).1
    rw [quotedLines, fieldsOf_blockSpelling before hname hitems, List.map_map]
    simp

/-- The lines of quoted fields add these fields to those before them. -/
theorem fieldsOf_flatMap_quotedLines {entries : List (String × FieldValue)}
    (hentries : ∀ e ∈ entries, isKey e.1.toList = true ∧ e.2.WellFormed)
    (before : List (List Char)) :
    fieldsOf (before ++ entries.flatMap fun e => quotedLines e.1 e.2) =
      (fieldsOf before).insertAll entries := by
  induction entries generalizing before with
  | nil => rw [List.flatMap_nil, List.append_nil, Table.insertAll, List.foldl_nil]
  | cons e entries ih =>
    obtain ⟨⟨hname, hvalue⟩, hentries⟩ := List.forall_mem_cons.1 hentries
    rw [List.flatMap_cons, ← List.append_assoc, ih hentries, fieldsOf_quotedLines before hname hvalue]
    rfl

/-- Readable fields are what some text is read as. -/
theorem exists_ofText_of_isReadable {fields : Descriptor} (h : IsReadable fields) :
    ∃ text doc, Document.ofText text = .ok doc ∧ doc.header = fields := by
  have hentries : ∀ e ∈ fields.entries, isKey e.1.toList = true ∧ e.2.WellFormed :=
    fun e he => wellFormed_of_mem_entries ((isReadable_iff fields).1 h) he
  have hlines : ∀ line ∈ fields.entries.flatMap fun e => quotedLines e.1 e.2,
      '\n' ∉ line ∧ isDelimiter line = false := by
    intro line hline
    obtain ⟨e, he, hline⟩ := List.mem_flatMap.1 hline
    exact quotedLines_lines (hentries e he).1 (hentries e he).2 line hline
  refine ⟨_, _, ofText_documentText hlines "", ?_⟩
  exact (fieldsOf_flatMap_quotedLines hentries []).trans (Table.ofList_entries fields)

/-- **Which fields can be read, and what holds on the way.** Exactly the readable fields are the header of
some document. After the opening line of a text and any lines that follow it the fields are readable and what
is open is what its key is bound to; and if none of these lines closes the header, reading the text is
reading the other lines from there. -/
theorem ofText_readable :
    (∀ fields, (∃ text doc, Document.ofText text = .ok doc ∧ doc.header = fields) ↔
      IsReadable fields) ∧
    ∀ (text : String) (opening : List Char) (before rest : List (List Char)),
      lines (dropMark text.toList) = opening :: (before ++ rest) →
      let s := Scan.start.after before
      IsReadable s.fields ∧ s.current.IsBoundIn s.fields ∧
        (isDelimiter opening = true → (∀ line ∈ before, isDelimiter line = false) →
          Document.ofText text = readLines s rest) := by
  refine ⟨fun fields => ⟨?_, exists_ofText_of_isReadable⟩, ?_⟩
  · rintro ⟨text, doc, hread, rfl⟩
    exact (isReadable_iff _).2 (wellFormed_of_ofText hread)
  · intro text opening before rest hlines
    refine ⟨isReadable_after (s := dropMark text.toList) fun line hline => ?_,
      isBoundIn_after (s := .start) trivial before, fun hopening hbefore => ?_⟩
    · rw [hlines]
      exact List.mem_cons_of_mem _ (List.mem_append_left _ hline)
    · rw [Document.ofText, hlines]
      simp only [hopening, if_true, readLines_append hbefore]

/-- A header up to the middle of a text that takes several lines, with a line after it that closes the text. -/
theorem ofText_readable_of_openText :
    let before := ["k: [a]\n".toList, "t: >\r\n".toList, "  b: c\n".toList, "\n".toList]
    let rest := ["  - d\n".toList, "---\n".toList]
    let s := Scan.start.after before
    lines (dropMark "---\nk: [a]\nt: >\r\n  b: c\n\n  - d\n---\n".toList) =
        "---\n".toList :: (before ++ rest) ∧
      s = ⟨.ofList [("k", .list ["a"]), ("t", .scalar "b: c")], .text ['t'] "b: c".toList⟩ ∧
      IsReadable s.fields ∧ s.current.IsBoundIn s.fields ∧
      Document.ofText "---\nk: [a]\nt: >\r\n  b: c\n\n  - d\n---\n" = readLines s rest := by
  intro before rest s
  have hlines : lines (dropMark "---\nk: [a]\nt: >\r\n  b: c\n\n  - d\n---\n".toList) =
      "---\n".toList :: (before ++ rest) := by decide +kernel
  obtain ⟨hfields, hopen, hread⟩ := ofText_readable.2 _ _ before rest hlines
  exact ⟨hlines, by decide +kernel, hfields, hopen, hread (by decide +kernel) (by decide +kernel)⟩

end Preflight.Header

import Preflight.Proofs.Header.ValueShapes
import Preflight.Proofs.Text.LineFeeds

/-!
# What reading a header returns

Reading folds the classified lines up to the first delimiter
(`readLines_eq_ok_iff`). Whatever the text, the fields that come out are well
formed (`wellFormed_of_ofText`): the keys are keys, no text has a line feed and no
list has an empty item. The invariant holds after every line, in every state.
-/

set_option autoImplicit false

namespace Preflight.Header

open Preflight.Text

/-! ### Reading as a fold -/

/-- Reading returns the fields of the lines before the first delimiter and the text after it. -/
theorem readLines_eq_ok_iff (s : Scan) (ls : List (List Char)) (doc : Document) :
    readLines s ls = .ok doc ↔
      ∃ before closing after, ls = before ++ closing :: after ∧
        (∀ l ∈ before, isDelimiter l = false) ∧ isDelimiter closing = true ∧
        doc = ⟨((before.map Line.classify).foldl Scan.step s).fields,
          String.ofList after.flatten⟩ := by
  induction ls generalizing s with
  | nil => simp [readLines]
  | cons line ls ih =>
    rw [readLines]
    by_cases hline : isDelimiter line = true
    · rw [if_pos hline, Except.ok.injEq]
      constructor
      · rintro rfl
        exact ⟨[], line, ls, rfl, by simp, hline, rfl⟩
      · rintro ⟨before, closing, after, hls, hbefore, -, rfl⟩
        cases before with
        | nil =>
          rw [List.nil_append, List.cons.injEq] at hls
          rw [hls.2]
          rfl
        | cons l before =>
          rw [List.cons_append, List.cons.injEq] at hls
          have hl := hbefore l List.mem_cons_self
          rw [← hls.1, hline] at hl
          exact absurd hl (by decide)
    · rw [if_neg hline, ih, classify_withoutEnding]
      constructor
      · rintro ⟨before, closing, after, rfl, hbefore, hclosing, rfl⟩
        refine ⟨line :: before, closing, after, rfl, ?_, hclosing, rfl⟩
        intro l hl
        rcases List.mem_cons.1 hl with rfl | hl
        · simpa using hline
        · exact hbefore l hl
      · rintro ⟨before, closing, after, hls, hbefore, hclosing, rfl⟩
        cases before with
        | nil =>
          rw [List.nil_append, List.cons.injEq] at hls
          exact absurd (hls.1 ▸ hclosing) hline
        | cons l before =>
          rw [List.cons_append, List.cons.injEq] at hls
          obtain ⟨rfl, rfl⟩ := hls
          exact ⟨before, closing, after, rfl, fun l hl => hbefore l (List.mem_cons_of_mem _ hl),
            hclosing, rfl⟩

/-! ### The invariant -/

/-- A value on single lines: no text has a line feed, and no item is empty. -/
def FieldValue.WellFormed : FieldValue → Prop
  | .scalar text => '\n' ∉ text.toList
  | .list items => ∀ item ∈ items, item ≠ "" ∧ '\n' ∉ item.toList

/-- Fields whose keys are keys and whose values stand on single lines. -/
def Descriptor.WellFormed (d : Descriptor) : Prop :=
  ∀ name value, d.find? name = some value → isKey name.toList = true ∧ value.WellFormed

/-- An open value under a key, on single lines. -/
def Open.WellFormed : Open → Prop
  | .nothing => True
  | .list name items => isKey name = true ∧ ∀ item ∈ items, item ≠ [] ∧ '\n' ∉ item
  | .text name acc => isKey name = true ∧ '\n' ∉ acc

/-- The invariant of reading: both the fields and what is open are well formed. -/
structure Scan.WellFormed (s : Scan) : Prop where
  fields : Descriptor.WellFormed s.fields
  current : s.current.WellFormed

/-- The state at the start is well-formed. -/
theorem wellFormed_start : Scan.start.WellFormed where
  fields := by
    intro name value h
    simp [Scan.start] at h
  current := trivial

/-- Binding a key to a well-formed value keeps a header well-formed. -/
theorem wellFormed_insert {d : Descriptor} (hd : Descriptor.WellFormed d) {name : List Char}
    (hname : isKey name = true) {value : FieldValue} (hvalue : value.WellFormed) :
    Descriptor.WellFormed (d.insert (String.ofList name) value) := by
  intro other v hfind
  rw [Table.find?_insert] at hfind
  by_cases heq : String.ofList name = other
  · rw [if_pos heq, Option.some.injEq] at hfind
    rw [← heq, ← hfind, String.toList_ofList]
    exact ⟨hname, hvalue⟩
  · rw [if_neg heq] at hfind
    exact hd other v hfind

/-- A list of items without line feeds, none of them empty, is well-formed. -/
theorem wellFormed_list {items : List (List Char)}
    (h : ∀ item ∈ items, item ≠ [] ∧ '\n' ∉ item) :
    (FieldValue.list (items.map String.ofList)).WellFormed := by
  intro text htext
  obtain ⟨item, hitem, rfl⟩ := List.mem_map.1 htext
  refine ⟨?_, by simpa using (h item hitem).2⟩
  simpa using (h item hitem).1

/-- A scalar without a line feed is well-formed. -/
theorem wellFormed_scalar {text : List Char} (h : '\n' ∉ text) :
    (FieldValue.scalar (String.ofList text)).WellFormed := by
  simpa [FieldValue.WellFormed] using h

/-- A key line keeps the invariant. -/
theorem wellFormed_bindKey {s : Scan} (hs : s.WellFormed) {name value : List Char}
    (hname : isKey name = true) (hvalue : '\n' ∉ value) : (s.bindKey name value).WellFormed := by
  have hwithin := classify_withinValue value
  rw [Scan.bindKey]
  cases hshape : ValueShape.classify value with
  | inlineList items =>
    rw [hshape] at hwithin
    have hitems : ∀ item ∈ items, item ≠ [] ∧ '\n' ∉ item := by
      intro item hitem
      exact ⟨(hwithin item hitem).1, fun h => hvalue ((hwithin item hitem).2.subset h)⟩
    exact ⟨wellFormed_insert hs.fields hname (wellFormed_list hitems), trivial⟩
  | blockList =>
    exact ⟨wellFormed_insert hs.fields hname (wellFormed_list (by simp)), hname, by simp⟩
  | blockText =>
    exact ⟨wellFormed_insert hs.fields hname (wellFormed_scalar (by simp)), hname, by simp⟩
  | scalar text =>
    rw [hshape] at hwithin
    have htext : '\n' ∉ text := fun h => hvalue (hwithin.subset h)
    exact ⟨wellFormed_insert hs.fields hname (wellFormed_scalar htext), trivial⟩

/-- Every line without a line feed keeps the invariant. -/
theorem wellFormed_step {s : Scan} (hs : s.WellFormed) {l : List Char} (hl : '\n' ∉ l)
    {line : Line} (hline : line.Within l) : (s.step line).WellFormed := by
  obtain ⟨fields, current⟩ := s
  have hclosed : (⟨fields, .nothing⟩ : Scan).WellFormed := ⟨hs.fields, trivial⟩
  cases line with
  | key name value =>
    exact wellFormed_bindKey hs hline.1 fun h => hl (hline.2.2.subset h)
  | item text =>
    cases current with
    | list name items =>
      rw [Scan.step]
      by_cases hempty : (unquote text).isEmpty = true
      · simpa [hempty] using hs
      · have hitem : unquote text ≠ [] ∧ '\n' ∉ unquote text := by
          refine ⟨by simpa using hempty, ?_⟩
          exact fun h => hl (hline.subset ((unquote_sublist text).subset h))
        have hitems : ∀ item ∈ items ++ [unquote text], item ≠ [] ∧ '\n' ∉ item := by
          intro item hmem
          rcases List.mem_append.1 hmem with hmem | hmem
          · exact hs.current.2 item hmem
          · exact List.mem_singleton.1 hmem ▸ hitem
        simp only [hempty]
        exact ⟨wellFormed_insert hs.fields hs.current.1 (wellFormed_list hitems),
          hs.current.1, hitems⟩
    | text name acc => exact hclosed
    | nothing => exact hclosed
  | indented more =>
    cases current with
    | text name acc =>
      have hmore : '\n' ∉ more := fun h => hl (hline.2.subset h)
      have hacc : '\n' ∉ acc := hs.current.2
      have htext : '\n' ∉ Scan.extend acc more := by
        rw [Scan.extend]
        split
        · exact hmore
        · simp [hacc, hmore]
      exact ⟨wellFormed_insert hs.fields hs.current.1 (wellFormed_scalar htext),
        hs.current.1, htext⟩
    | list name items => exact hclosed
    | nothing => exact hclosed
  | blank =>
    cases current with
    | text name acc => exact hs
    | list name items => exact hclosed
    | nothing => exact hclosed
  | other => exact hclosed

/-- Lines without line feeds keep the invariant. -/
theorem wellFormed_foldl_step {ls : List (List Char)} (hls : ∀ l ∈ ls, '\n' ∉ withoutEnding l)
    {s : Scan} (hs : s.WellFormed) : ((ls.map Line.classify).foldl Scan.step s).WellFormed := by
  induction ls generalizing s with
  | nil => exact hs
  | cons l ls ih =>
    rw [List.map_cons, List.foldl_cons]
    refine ih (fun l' hl' => hls l' (List.mem_cons_of_mem _ hl')) ?_
    rw [← classify_withoutEnding]
    exact wellFormed_step hs (hls l List.mem_cons_self) (classify_within _)

/-- A line of a text has no line feed once its ending is cut off. -/
theorem feed_not_mem_withoutEnding {s line : List Char} (h : line ∈ lines s) :
    '\n' ∉ withoutEnding line := by
  obtain ⟨content, hcontent, hline⟩ := exists_content_of_mem_lines h
  have heq : withoutEnding line = withoutEnding content := by
    rcases hline with rfl | rfl
    · rfl
    · exact dropEndWhile_append_of_all content (by simp)
  rw [heq, withoutEnding]
  intro hmem
  exact hcontent ((dropEndWhile_sublist _ content).subset hmem)

/-- Fields that were read are well formed. -/
theorem wellFormed_of_ofText {text : String} {doc : Document}
    (h : Document.ofText text = .ok doc) : Descriptor.WellFormed doc.header := by
  rw [Document.ofText] at h
  cases hlines : lines (dropMark text.toList) with
  | nil => simp [hlines] at h
  | cons first rest =>
    simp only [hlines] at h
    by_cases hfirst : isDelimiter first = true
    · rw [if_pos hfirst, readLines_eq_ok_iff] at h
      obtain ⟨before, closing, after, hrest, -, -, rfl⟩ := h
      refine (wellFormed_foldl_step ?_ wellFormed_start).fields
      intro l hl
      refine feed_not_mem_withoutEnding (s := dropMark text.toList) ?_
      rw [hlines, hrest]
      simp [hl]
    · rw [if_neg hfirst] at h
      exact absurd h (by simp)

end Preflight.Header

import Preflight.Proofs.Header.Cutting
import Preflight.Proofs.Header.InlinePieces
import Preflight.Proofs.Header.RoundTrip

/-!
# Two spellings of a list

A list of quoted items is written with one item a line, or on the line of its key between
brackets. Line by line it is always read as its items. Between brackets a quote is closed
by the next double quote, also by one that is escaped, so the list is read as its items
exactly if no comma of an item stands outside when the item is read in this way, and
every item but the last ends inside its quote again (`ofText_spellings`). Items without
double quotes are read alike in both spellings.
-/

set_option autoImplicit false

namespace Preflight.Header

open Preflight.Text

/-- A list with one item a line. -/
def blockSpelling (name : List Char) (items : List (List Char)) : List (List Char) :=
  (name ++ [':']) :: items.map fun item => ' ' :: ' ' :: '-' :: ' ' :: quote item

/-- A list between brackets. -/
def inlineSpelling (name : List Char) (items : List (List Char)) : List Char :=
  name ++ ':' :: ' ' :: '[' :: ([',', ' '].intercalate (items.map quote) ++ [']'])

/-! ### Quoted items in an inline list -/

namespace Nesting

/-- Just after a double quote that stands outside. -/
def inQuotes : Nesting := ⟨some '"', 0⟩

/-- A backslash means nothing where lists are cut. -/
theorem next_backslash {n : Nesting} (hn : n.quote ≠ some '\\') : n.next '\\' = n := by
  obtain ⟨_ | q, depth⟩ := n
  · simp [next]
  · have hq : '\\' ≠ q := fun h => hn (by rw [h])
    simp [next, hq]

/-- A backslash never opens a quote. -/
theorem quote_next_ne {n : Nesting} (hn : n.quote ≠ some '\\') (c : Char) :
    (n.next c).quote ≠ some '\\' := by
  obtain ⟨_ | q, depth⟩ := n
  · simp only [next]
    split_ifs with hquote
    · rintro ⟨rfl⟩
      exact absurd hquote (by decide)
    all_goals simp
  · simp only [next]
    split_ifs
    · simp
    · exact hn

/-- A double quote leads outside exactly from between double quotes. -/
theorem next_quote_eq_outside_iff (n : Nesting) : n.next '"' = .outside ↔ n = .inQuotes := by
  obtain ⟨_ | q, depth⟩ := n
  · simp [next, outside, inQuotes]
  · by_cases hq : '"' = q
    · simp [next, outside, inQuotes, ← hq]
    · simp [next, outside, inQuotes, hq, Ne.symm hq]

/-- Where lists are cut, an escaped text is like the text. -/
theorem after_escape {n : Nesting} (hn : n.quote ≠ some '\\') (s : List Char) :
    n.after (escape s) = n.after s ∧ (n.Unbroken (escape s) ↔ n.Unbroken s) := by
  induction s generalizing n with
  | nil => exact ⟨rfl, Iff.rfl⟩
  | cons c s ih =>
    obtain ⟨hafter, hunbroken⟩ := ih (quote_next_ne hn c)
    by_cases hc : c = '"' ∨ c = '\\'
    · have hescape : escape (c :: s) = '\\' :: c :: escape s := by simp [escape, hc]
      rw [hescape]
      refine ⟨?_, ?_⟩
      · simpa [after, next_backslash hn] using hafter
      · simp [Unbroken, next_backslash hn, hunbroken]
    · have hescape : escape (c :: s) = c :: escape s := by
        rw [not_or] at hc
        simp [escape, hc]
      rw [hescape]
      exact ⟨hafter, and_congr_right fun _ => hunbroken⟩

/-- A text without double quotes stays inside its quotes. -/
theorem after_inQuotes {s : List Char} (h : '"' ∉ s) :
    inQuotes.after s = inQuotes ∧ inQuotes.Unbroken s := by
  induction s with
  | nil => exact ⟨rfl, trivial⟩
  | cons c s ih =>
    rw [List.mem_cons, not_or] at h
    have hnext : inQuotes.next c = inQuotes := by simp [next, inQuotes, Ne.symm h.1]
    obtain ⟨hafter, hunbroken⟩ := ih h.2
    refine ⟨?_, by simp [inQuotes, outside], ?_⟩
    · rw [after, List.foldl_cons, hnext]
      exact hafter
    · rwa [hnext]

end Nesting

/-- A quoted text leads back outside exactly if the text stays between its quotes. -/
theorem after_quote_iff (s : List Char) :
    Nesting.outside.after (quote s) = .outside ↔ Nesting.inQuotes.after s = .inQuotes := by
  have hquote : Nesting.outside.after (quote s) =
      (Nesting.inQuotes.after (escape s)).next '"' := by
    rw [quote, Nesting.after, List.foldl_append]
    rfl
  rw [hquote, Nesting.next_quote_eq_outside_iff, (Nesting.after_escape (by decide) s).1]

/-- A quoted text is unbroken exactly if the text is, between its quotes. -/
theorem unbroken_quote_iff (s : List Char) :
    Nesting.outside.Unbroken (quote s) ↔ Nesting.inQuotes.Unbroken s := by
  have hfirst : Nesting.outside.Unbroken (quote s) ↔
      Nesting.inQuotes.Unbroken (escape s ++ ['"']) := and_iff_right (by simp)
  have hlast : (Nesting.inQuotes.after (escape s)).Unbroken ['"'] := ⟨by simp, trivial⟩
  rw [hfirst, Nesting.unbroken_append_iff, (Nesting.after_escape (by decide) s).2]
  exact and_iff_left hlast

/-- A list with a blank after each comma is one with a blank before each item but the first. -/
theorem intercalate_comma_space (item : List Char) (items : List (List Char)) :
    [',', ' '].intercalate (item :: items) =
      [','].intercalate (item :: items.map fun more => ' ' :: more) := by
  induction items generalizing item with
  | nil => rfl
  | cons second items ih =>
    have hspace : [','].intercalate ((' ' :: second) :: items.map fun more => ' ' :: more) =
        ' ' :: [','].intercalate (second :: items.map fun more => ' ' :: more) := by
      cases items <;> simp [List.intercalate_cons_cons]
    rw [List.map_cons, List.intercalate_cons_cons, List.intercalate_cons_cons, ih, hspace]
    simp

/-- Quoted items between brackets are read as the items exactly if no comma of theirs stands outside
and every item but the last ends inside its quote. -/
theorem inlineItems_quote_iff {items : List (List Char)} (hne : items ≠ [])
    (hitems : ∀ item ∈ items, item ≠ []) :
    inlineItems ([',', ' '].intercalate (items.map quote)) = items ↔
      (∀ item ∈ items, Nesting.inQuotes.Unbroken item) ∧
        ∀ item ∈ items.dropLast, Nesting.inQuotes.after item = .inQuotes := by
  obtain ⟨first, items, rfl⟩ := List.exists_cons_of_ne_nil hne
  let written := quote first :: items.map fun item => ' ' :: quote item
  have hjoin : [',', ' '].intercalate ((first :: items).map quote) = [','].intercalate written := by
    rw [List.map_cons, intercalate_comma_space, List.map_map]
    rfl
  have hunquote : written.map unquote = first :: items := by
    have hspace (item : List Char) : unquote (' ' :: quote item) = item := by
      rw [unquote_cons_of_isBlank (by decide), unquote_quoted]
    simp [written, unquote_quoted, hspace, Function.comp_def]
  have hne' : ∀ p ∈ written, unquote p ≠ [] := by
    intro p hp
    exact hitems _ (hunquote ▸ List.mem_map_of_mem hp)
  have hnext : Nesting.outside.next ' ' = .outside := by decide
  have hunbroken : (∀ p ∈ written, Nesting.outside.Unbroken p) ↔
      ∀ item ∈ first :: items, Nesting.inQuotes.Unbroken item := by
    have hspace (item : List Char) : Nesting.outside.Unbroken (' ' :: quote item) ↔
        Nesting.inQuotes.Unbroken item := by
      rw [Nesting.Unbroken, hnext, unbroken_quote_iff]
      exact and_iff_right (by simp)
    simp only [written, List.forall_mem_cons, List.forall_mem_map, unbroken_quote_iff, hspace]
  have hafter : (∀ p ∈ written.dropLast, Nesting.outside.after p = .outside) ↔
      ∀ item ∈ (first :: items).dropLast, Nesting.inQuotes.after item = .inQuotes := by
    have hspace (item : List Char) : Nesting.outside.after (' ' :: quote item) = .outside ↔
        Nesting.inQuotes.after item = .inQuotes := by
      rw [← after_quote_iff, Nesting.after, List.foldl_cons, hnext, Nesting.after]
    cases items with
    | nil => simp [written]
    | cons second items =>
      rw [List.dropLast_cons_cons, List.dropLast_cons_of_ne_nil (by simp), ← List.map_dropLast]
      simp only [List.forall_mem_cons, List.forall_mem_map, after_quote_iff, hspace]
  rw [hjoin, ← hunbroken, ← hafter, ← inlineItems_intercalate_iff (by simp [written]) hne',
    hunquote]

/-! ### Lists in a header -/

section Spellings

variable {name : List Char} {items : List (List Char)}

/-- The lines of a block list have no line feed inside and do not close the header. -/
theorem blockSpelling_lines (hname : isKey name = true) (hitems : ∀ item ∈ items, '\n' ∉ item) :
    ∀ line ∈ blockSpelling name items, '\n' ∉ line ∧ isDelimiter line = false := by
  have hkey : '\n' ∉ name := fun h => absurd (((isKey_iff _).1 hname).2 _ h) (by decide)
  refine List.forall_mem_cons.2
    ⟨⟨by simp [hkey], ?_⟩, List.forall_mem_map.2 fun item hitem => ⟨?_, ?_⟩⟩
  · exact isDelimiter_eq_false (c := ':') (by simp) (by decide) (by decide)
  · simpa using feed_not_mem_quote (hitems item hitem)
  · exact isDelimiter_eq_false (c := '"') (by simp [quote]) (by decide) (by decide)

/-- A key with a list between brackets is a line of a header if what is between the brackets has no
line feed. -/
theorem brackets_line (hname : isKey name = true) {inside : List Char} (hinside : '\n' ∉ inside) :
    '\n' ∉ name ++ ':' :: ' ' :: '[' :: (inside ++ [']']) ∧
      isDelimiter (name ++ ':' :: ' ' :: '[' :: (inside ++ [']'])) = false := by
  have hkey : '\n' ∉ name := fun h => absurd (((isKey_iff _).1 hname).2 _ h) (by decide)
  refine ⟨by simp [hkey, hinside], ?_⟩
  exact isDelimiter_eq_false (c := ':') (by simp) (by decide) (by decide)

/-- The line of an inline list has no line feed inside and does not close the header. -/
theorem inlineSpelling_line (hname : isKey name = true) (hitems : ∀ item ∈ items, '\n' ∉ item) :
    '\n' ∉ inlineSpelling name items ∧ isDelimiter (inlineSpelling name items) = false :=
  brackets_line hname <| not_mem_intercalate (by decide)
    (List.forall_mem_map.2 fun item hitem => feed_not_mem_quote (hitems item hitem))

/-- One item a line, a list is read as its items. -/
theorem fieldsOf_blockSpelling (before : List (List Char)) (hname : isKey name = true)
    (hitems : ∀ item ∈ items, item ≠ []) :
    fieldsOf (before ++ blockSpelling name items) =
      (fieldsOf before).insert (String.ofList name) (.list (items.map String.ofList)) := by
  have hread : items.map (fun item => unquote (trim (quote item))) = items := by
    simp [trim_quote, unquote_quoted]
  have hkept : items.filter (!·.isEmpty) = items := by
    rw [List.filter_eq_self]
    exact fun item hitem => by simpa using hitems item hitem
  have hlines := foldl_step_itemLines name (items.map quote) [] (fieldsOf before)
  rw [List.map_map, List.map_map, List.nil_append] at hlines
  simp only [Function.comp_def, hread, hkept] at hlines
  rw [fieldsOf, List.map_append, List.foldl_append, blockSpelling, List.map_cons,
    List.foldl_cons, classify_keyLine hname, List.map_map]
  exact hlines

/-- A list between brackets is read as the items that stand between them. -/
theorem fieldsOf_brackets (before : List (List Char)) (hname : isKey name = true)
    (inside : List Char) :
    fieldsOf (before ++ [name ++ ':' :: ' ' :: '[' :: (inside ++ [']'])]) =
      (fieldsOf before).insert (String.ofList name)
        (.list ((inlineItems inside).map String.ofList)) := by
  have htrim : trim (' ' :: '[' :: (inside ++ [']'])) = '[' :: (inside ++ [']']) := by
    rw [trim_cons_of_isBlank (by decide), trim_cons (by decide),
      trimEnd_append_cons inside (by decide)]
    rfl
  rw [fieldsOf, List.map_append, List.foldl_append, List.map_singleton, List.foldl_cons,
    List.foldl_nil, classify_keyLine hname, htrim, Scan.step, Scan.bindKey, classify_brackets]
  rfl

/-- An inline list binds its key to the items into which it is cut. -/
theorem fieldsOf_inlineSpelling (before : List (List Char)) (hname : isKey name = true) :
    fieldsOf (before ++ [inlineSpelling name items]) =
      (fieldsOf before).insert (String.ofList name)
        (.list ((inlineItems ([',', ' '].intercalate (items.map quote))).map String.ofList)) :=
  fieldsOf_brackets before hname _

/-- Binding a key to two values gives the same fields exactly if the values are the same. -/
theorem insert_right_inj (t : Descriptor) (name : String) (v w : FieldValue) :
    t.insert name v = t.insert name w ↔ v = w := by
  refine ⟨fun h => ?_, fun h => by rw [h]⟩
  have hfind := congrArg (Table.find? · name) h
  simpa [Table.find?_insert] using hfind

end Spellings

/-- **Two spellings of a list of quoted items.** With one item a line the list is read as its items,
after any other lines. Between brackets it is exactly if no comma of an item stands outside and
every item but the last ends inside its quote, as items without double quotes do. -/
theorem ofText_spellings {before : List (List Char)}
    (hbefore : ∀ line ∈ before, '\n' ∉ line ∧ isDelimiter line = false) {name : List Char}
    (hname : isKey name = true) {items : List (List Char)} (hne : items ≠ [])
    (hitems : ∀ item ∈ items, item ≠ [] ∧ '\n' ∉ item) (body : String) :
    let list : FieldValue := .list (items.map String.ofList)
    let doc : Document := ⟨(fieldsOf before).insert (String.ofList name) list, body⟩
    let block := documentText (before ++ blockSpelling name items) body
    let inline := documentText (before ++ [inlineSpelling name items]) body
    Document.ofText block = .ok doc ∧
      (Document.ofText inline = .ok doc ↔
        (∀ item ∈ items, Nesting.inQuotes.Unbroken item) ∧
          ∀ item ∈ items.dropLast, Nesting.inQuotes.after item = .inQuotes) ∧
      ((∀ item ∈ items, '"' ∉ item) → Document.ofText inline = .ok doc) := by
  intro list doc block inline
  have hfilled : ∀ item ∈ items, item ≠ [] := fun item hitem => (hitems item hitem).1
  have hfeeds : ∀ item ∈ items, '\n' ∉ item := fun item hitem => (hitems item hitem).2
  have hblock : Document.ofText block = .ok doc := by
    have hlines := List.forall_mem_append.2 ⟨hbefore, blockSpelling_lines hname hfeeds⟩
    simp only [block, ofText_documentText hlines, fieldsOf_blockSpelling before hname hfilled, doc,
      list]
  have hinline : Document.ofText inline = .ok doc ↔
      (∀ item ∈ items, Nesting.inQuotes.Unbroken item) ∧
        ∀ item ∈ items.dropLast, Nesting.inQuotes.after item = .inQuotes := by
    have hlines : ∀ line ∈ before ++ [inlineSpelling name items],
        '\n' ∉ line ∧ isDelimiter line = false :=
      List.forall_mem_append.2
        ⟨hbefore, List.forall_mem_singleton.2 (inlineSpelling_line hname hfeeds)⟩
    rw [← inlineItems_quote_iff hne hfilled]
    simp only [inline, ofText_documentText hlines, fieldsOf_inlineSpelling before hname, doc, list,
      Except.ok.injEq, Document.mk.injEq, and_true, insert_right_inj, FieldValue.list.injEq]
    exact List.map_inj_right fun _ _ => String.ofList_inj.1
  refine ⟨hblock, hinline, fun hquotes => hinline.2 ⟨fun item hitem => ?_, fun item hitem => ?_⟩⟩
  · exact (Nesting.after_inQuotes (hquotes item hitem)).2
  · exact (Nesting.after_inQuotes (hquotes item (List.dropLast_subset items hitem))).1

/-- A comma, a parenthesis and a backslash between quotes, and quotes in the last item. -/
theorem ofText_spellings_of_escapes :
    Document.ofText "---\nn: x\nk:\n  - \"a, (\\\\\"\n  - \"\\\"b\\\" c\"\n---\nbody" =
        .ok ⟨.ofList [("k", .list ["a, (\\", "\"b\" c"]), ("n", .scalar "x")], "body"⟩ ∧
      Document.ofText "---\nn: x\nk: [\"a, (\\\\\", \"\\\"b\\\" c\"]\n---\nbody" =
        .ok ⟨.ofList [("k", .list ["a, (\\", "\"b\" c"]), ("n", .scalar "x")], "body"⟩ := by
  obtain ⟨hblock, hinline, -⟩ := @ofText_spellings ["n: x".toList] (by decide +kernel)
    ['k'] (by decide) ["a, (\\".toList, "\"b\" c".toList] (by decide) (by decide +kernel) "body"
  have hfields : (fieldsOf ["n: x".toList]).insert "k" (.list ["a, (\\", "\"b\" c"]) =
      .ofList [("k", .list ["a, (\\", "\"b\" c"]), ("n", .scalar "x")] := by decide +kernel
  rw [← hfields]
  exact ⟨hblock, hinline.2 (by decide +kernel)⟩

/-- An escaped quote closes the quote between brackets, so the next comma is inside another one. -/
theorem ofText_inlineSpelling_ne :
    Document.ofText (documentText (blockSpelling ['k'] ["a\"b".toList, ['c']]) "") =
        .ok ⟨.ofList [("k", .list ["a\"b", "c"])], ""⟩ ∧
      Document.ofText (documentText [inlineSpelling ['k'] ["a\"b".toList, ['c']]] "") =
        .ok ⟨.ofList [("k", .list ["a\"b\", \"c"])], ""⟩ ∧
      Document.ofText (documentText [inlineSpelling ['k'] ["a\"b".toList, ['c']]] "") ≠
        .ok ⟨.ofList [("k", .list ["a\"b", "c"])], ""⟩ := by
  decide +kernel

end Preflight.Header

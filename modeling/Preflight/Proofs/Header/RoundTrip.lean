import Preflight.Proofs.Bindings
import Preflight.Proofs.Header.Reading

/-!
# Reading back a header that was written

A written header is read line by line as it was written (`ofText_toText`): every
key line binds its key again, every scalar comes back as it is, and an item comes
back unquoted, or not at all if nothing is left of it. So fields that are well
formed come back unchanged exactly if each item that is written without quotes is
its own trim (`ofText_toText_eq_self_iff`).

Two statements follow. Fields of any kind come back unchanged exactly if they are
well formed in this sense and no such item starts or ends with a blank
(`ofText_toText_eq_ok_iff`); and since fields that were read are well formed, only
the blanks at the ends of items decide for them (`ofText_toText_header_iff`).
-/

set_option autoImplicit false

namespace Preflight.Header

open Preflight.Text

/-! ### The lines of a written header -/

/-- The line of an item. -/
def itemLine (item : List Char) : List Char :=
  ' ' :: ' ' :: '-' :: ' ' :: writeItem item

/-- The lines of a field. -/
def fieldLines (name : String) : FieldValue → List (List Char)
  | .scalar text => [name.toList ++ ':' :: ' ' :: writeScalar text.toList]
  | .list [] => [name.toList ++ [':', ' ', '[', ']']]
  | .list items => (name.toList ++ [':']) :: items.map fun item => itemLine item.toList

/-- A list with items is printed as the line of its key and one line for each item. -/
theorem fieldLines_list_cons (name first : String) (items : List String) :
    fieldLines name (.list (first :: items)) =
      (name.toList ++ [':']) :: (first :: items).map fun item => itemLine item.toList := rfl

/-- The lines of all fields. -/
def bodyLines (d : Descriptor) : List (List Char) :=
  d.entries.flatMap fun e => fieldLines e.1 e.2

/-- The opening and closing line, without its line feed. -/
def delimiter : List Char :=
  ['-', '-', '-']

/-- A field is printed as its lines. -/
theorem writeField_eq (name : String) (value : FieldValue) :
    writeField name value = (fieldLines name value).flatMap fun line => line ++ ['\n'] := by
  match value with
  | .scalar text => simp [writeField, fieldLines]
  | .list [] => simp [writeField, fieldLines]
  | .list (item :: items) => simp [writeField, fieldLines, itemLine, List.flatMap_map]

/-- A header is written line by line between two delimiters. -/
theorem toText_eq (d : Descriptor) :
    (Descriptor.toText d).toList =
      (delimiter :: (bodyLines d ++ [delimiter])).flatMap fun line => line ++ ['\n'] := by
  rw [Descriptor.toText, String.toList_ofList, List.flatMap_cons, List.flatMap_append, bodyLines,
    List.flatMap_assoc, List.flatMap_singleton, List.append_assoc]
  congr 2
  exact List.flatMap_congr fun e _ => writeField_eq e.1 e.2

/-- Double quotes add no line feed. -/
theorem feed_not_mem_quote {s : List Char} (h : '\n' ∉ s) : '\n' ∉ quote s := by
  have hescape : '\n' ∉ escape s := by
    rw [escape, List.mem_flatMap]
    rintro ⟨c, hc, hmem⟩
    by_cases hspecial : c = '"' ∨ c = '\\'
    · rcases hspecial with rfl | rfl <;> simp at hmem
    · rw [if_neg hspecial, List.mem_singleton] at hmem
      exact h (hmem ▸ hc)
  simp [quote, hescape]

/-- The lines of a well-formed field have no line feed inside. -/
theorem feed_not_mem_fieldLines {name : String} {value : FieldValue}
    (hname : isKey name.toList = true) (hvalue : value.WellFormed) :
    ∀ line ∈ fieldLines name value, '\n' ∉ line := by
  have hkey : '\n' ∉ name.toList := by
    intro h
    exact absurd (((isKey_iff _).1 hname).2 _ h) (by decide)
  match value, hvalue with
  | .scalar text, hvalue =>
    have htext : '\n' ∉ writeScalar text.toList := by
      rw [writeScalar]
      split
      · exact feed_not_mem_quote hvalue
      · exact hvalue
    simp [fieldLines, hkey, htext]
  | .list [], _ => simp [fieldLines, hkey]
  | .list (first :: items), hvalue =>
    intro line hline
    rw [fieldLines_list_cons, List.mem_cons] at hline
    rcases hline with rfl | hline
    · simp [hkey]
    · obtain ⟨item, hitem, rfl⟩ := List.mem_map.1 hline
      have hwritten : '\n' ∉ writeItem item.toList := by
        rw [writeItem]
        split
        · exact feed_not_mem_quote (hvalue item hitem).2
        · exact (hvalue item hitem).2
      simp [itemLine, hwritten]

/-- A line with a character that is neither blank nor a dash is no delimiter. -/
theorem isDelimiter_eq_false {line : List Char} {c : Char} (hmem : c ∈ line)
    (hblank : isBlank c = false) (hdash : c ≠ '-') : isDelimiter line = false := by
  obtain ⟨r, hline, hr⟩ := exists_trimEnd_append line
  rw [isDelimiter, beq_eq_false_iff_ne]
  intro heq
  rw [hline, heq, List.mem_append] at hmem
  rcases hmem with hmem | hmem
  · simp [hdash] at hmem
  · rw [hr c hmem] at hblank
    exact absurd hblank (by decide)

/-- No line of a field closes the header. -/
theorem isDelimiter_fieldLines (name : String) (value : FieldValue) :
    ∀ line ∈ fieldLines name value, isDelimiter line = false := by
  have hcolon (rest : List Char) : isDelimiter (name.toList ++ ':' :: rest) = false :=
    isDelimiter_eq_false (List.mem_append_right _ List.mem_cons_self) (by decide) (by decide)
  match value with
  | .scalar text => simp [fieldLines, hcolon]
  | .list [] => simp [fieldLines, hcolon]
  | .list (first :: items) =>
    intro line hline
    rw [fieldLines_list_cons, List.mem_cons] at hline
    rcases hline with rfl | hline
    · exact hcolon []
    · obtain ⟨item, -, rfl⟩ := List.mem_map.1 hline
      -- an item line starts with blanks, which trimming at the end keeps
      rw [isDelimiter, itemLine, beq_eq_false_iff_ne]
      have hdash : trimEnd (' ' :: ' ' :: '-' :: ' ' :: writeItem item.toList) =
          ' ' :: ' ' :: '-' :: trimEnd (' ' :: writeItem item.toList) :=
        trimEnd_append_cons [' ', ' '] (by decide) (' ' :: writeItem item.toList)
      rw [hdash]
      simp

/-! ### What is read back -/

/-- What an item comes back as. -/
def rereadItem (item : List Char) : List Char :=
  unquote (trim (writeItem item))

/-- What a value comes back as: items of which nothing is left do not come back. -/
def reread : FieldValue → FieldValue
  | .scalar text => .scalar text
  | .list items =>
    .list (((items.map fun item => rereadItem item.toList).filter (!·.isEmpty)).map String.ofList)

/-- The last value to which a key is bound is the one that counts. -/
theorem insert_insert (t : Descriptor) (name : String) (v w : FieldValue) :
    (t.insert name v).insert name w = t.insert name w := by
  apply Table.ext_find?
  intro k
  simp only [Table.find?_insert]
  split <;> rfl

/-- An item line under an open list extends it by the item, unless nothing is left of that. -/
theorem step_itemLine (fields : Descriptor) (name : List Char) (acc : List (List Char))
    (text : List Char) :
    Scan.step ⟨fields, .list name acc⟩ (Line.classify (' ' :: ' ' :: '-' :: ' ' :: text)) =
      if (unquote (trim text)).isEmpty then ⟨fields, .list name acc⟩
      else
        ⟨fields.insert (String.ofList name)
            (.list ((acc ++ [unquote (trim text)]).map String.ofList)),
          .list name (acc ++ [unquote (trim text)])⟩ := by
  rw [classify_itemLine]
  rfl

/-- Item lines under an open list extend it by their items. -/
theorem foldl_step_itemLines (name : List Char) (texts acc : List (List Char)) (t : Descriptor) :
    ((texts.map fun text => Line.classify (' ' :: ' ' :: '-' :: ' ' :: text)).foldl Scan.step
        ⟨t.insert (String.ofList name) (.list (acc.map String.ofList)), .list name acc⟩).fields =
      t.insert (String.ofList name)
        (.list ((acc ++ (texts.map fun text => unquote (trim text)).filter (!·.isEmpty)).map
          String.ofList)) := by
  induction texts generalizing acc with
  | nil => simp
  | cons text texts ih =>
    rw [List.map_cons, List.foldl_cons, step_itemLine, List.map_cons]
    by_cases hempty : (unquote (trim text)).isEmpty = true
    · rw [if_pos hempty, List.filter_cons_of_neg (by simpa using hempty), ih acc]
    · rw [if_neg hempty, List.filter_cons_of_pos (by simpa using hempty), insert_insert,
        ih (acc ++ [unquote (trim text)]), List.append_assoc, List.singleton_append]

/-- The lines of a field bind its key to what its value comes back as, whatever was open before. -/
theorem foldl_step_fieldLines (s : Scan) {name : String} (hname : isKey name.toList = true)
    (value : FieldValue) :
    (((fieldLines name value).map Line.classify).foldl Scan.step s).fields =
      s.fields.insert name (reread value) := by
  have hkey : String.ofList name.toList = name := String.ofList_toList
  match value with
  | .scalar text =>
    have hvalue : trim (' ' :: writeScalar text.toList) = writeScalar text.toList := by
      rw [trim_cons_of_isBlank (by decide), trim_writeScalar]
    simp only [fieldLines, List.map_cons, List.map_nil, List.foldl_cons, List.foldl_nil,
      classify_keyLine hname, hvalue, Scan.step, Scan.bindKey, classify_writeScalar,
      Scan.bindScalar, reread, hkey, String.ofList_toList]
  | .list [] =>
    have hvalue : trim [' ', '[', ']'] = ['[', ']'] := by decide
    have hshape : ValueShape.classify ['[', ']'] = .inlineList [] := classify_brackets []
    simp only [fieldLines, List.map_cons, List.map_nil, List.foldl_cons, List.foldl_nil,
      classify_keyLine hname, hvalue, hshape, Scan.step, Scan.bindKey, Scan.bindList, reread, hkey,
      List.filter_nil]
  | .list (first :: items) =>
    have hvalue : trim [] = [] := rfl
    have hshape : ValueShape.classify [] = .blockList := (classify_eq_blockList_iff []).2 rfl
    have hitems := foldl_step_itemLines name.toList
      ((first :: items).map fun item => writeItem item.toList) [] s.fields
    rw [List.map_map, hkey, List.map_nil, List.nil_append, List.map_map] at hitems
    rw [fieldLines_list_cons, List.map_cons, List.foldl_cons, classify_keyLine hname, hvalue,
      Scan.step, Scan.bindKey, hshape, List.map_map]
    simp only [Scan.bindList, hkey, List.map_nil]
    exact hitems

/-- The lines of all fields bind each key to what is reread of its value. -/
theorem foldl_step_entries {entries : List (String × FieldValue)}
    (hkeys : ∀ e ∈ entries, isKey e.1.toList = true) (s : Scan) :
    (((entries.flatMap fun e => fieldLines e.1 e.2).map Line.classify).foldl Scan.step s).fields =
      s.fields.insertAll (entries.map fun e => (e.1, reread e.2)) := by
  induction entries generalizing s with
  | nil => rfl
  | cons e entries ih =>
    rw [List.flatMap_cons, List.map_append, List.foldl_append,
      ih fun e he => hkeys e (List.mem_cons_of_mem _ he),
      foldl_step_fieldLines s (hkeys e List.mem_cons_self)]
    rfl

/-- The fields of a well-formed header are well-formed. -/
theorem wellFormed_of_mem_entries {d : Descriptor} (hd : Descriptor.WellFormed d)
    {e : String × FieldValue} (he : e ∈ d.entries) :
    isKey e.1.toList = true ∧ e.2.WellFormed :=
  hd e.1 e.2 ((d.mem_entries_iff e.1 e.2).1 he)

/-- Cutting a written header into lines gives back the lines that were written. -/
theorem lines_toText {d : Descriptor} (hd : Descriptor.WellFormed d) :
    lines (dropMark (Descriptor.toText d).toList) =
      (delimiter ++ ['\n']) ::
        ((bodyLines d).map (fun line => line ++ ['\n']) ++ [delimiter ++ ['\n']]) := by
  have hfeeds : ∀ line ∈ delimiter :: (bodyLines d ++ [delimiter]), '\n' ∉ line := by
    intro line hline
    simp only [bodyLines, List.mem_cons, List.mem_append, List.mem_flatMap, List.not_mem_nil,
      or_false] at hline
    rcases hline with rfl | ⟨e, he, hline⟩ | rfl
    · decide
    · obtain ⟨hkey, hvalue⟩ := wellFormed_of_mem_entries hd he
      exact feed_not_mem_fieldLines hkey hvalue line hline
    · decide
  -- the text starts with a dash, so there is no byte order mark to drop
  have hmark (rest : List Char) : dropMark ('-' :: rest) = '-' :: rest := rfl
  have hfirst : dropMark (Descriptor.toText d).toList = (Descriptor.toText d).toList := by
    rw [toText_eq, List.flatMap_cons]
    exact hmark _
  rw [hfirst, toText_eq, lines_flatMap_feed _ hfeeds, List.map_cons, List.map_append]
  rfl

/-- The lines of all fields are read up to the closing delimiter. -/
theorem readLines_bodyLines {d : Descriptor} (hd : Descriptor.WellFormed d) :
    readLines .start ((bodyLines d).map (fun line => line ++ ['\n']) ++ [delimiter ++ ['\n']]) =
      .ok ⟨Table.ofList (d.entries.map fun e => (e.1, reread e.2)), ""⟩ := by
  have hclass : ((bodyLines d).map fun line => line ++ ['\n']).map Line.classify =
      (bodyLines d).map Line.classify := by
    rw [List.map_map]
    apply List.map_congr_left
    intro line _
    exact classify_append_feed line
  rw [readLines_eq_ok_iff]
  refine ⟨_, _, [], rfl, ?_, by decide, ?_⟩
  · intro line hline
    obtain ⟨content, hcontent, rfl⟩ := List.mem_map.1 hline
    obtain ⟨e, -, hcontent⟩ := List.mem_flatMap.1 hcontent
    rw [isDelimiter_append_feed]
    exact isDelimiter_fieldLines e.1 e.2 content hcontent
  · rw [hclass, bodyLines, foldl_step_entries fun e he => (wellFormed_of_mem_entries hd he).1]
    rfl

/-- Well-formed fields are read back with every value as it comes back. -/
theorem ofText_toText {d : Descriptor} (hd : Descriptor.WellFormed d) :
    Descriptor.ofText (Descriptor.toText d) =
      .ok (Table.ofList (d.entries.map fun e => (e.1, reread e.2))) := by
  have hopening : isDelimiter (delimiter ++ ['\n']) = true := by decide
  simp only [Descriptor.ofText, Document.ofText, lines_toText hd, hopening, if_true,
    readLines_bodyLines hd]
  rfl

/-! ### When everything comes back -/

/-- A well-formed value comes back as it is exactly if each item written without quotes is its own
trim. -/
theorem reread_eq_self_iff {value : FieldValue} (hvalue : value.WellFormed) :
    reread value = value ↔ ∀ items, value = .list items → ∀ item ∈ items,
      trim item.toList = item.toList ∨ StartsQuoted item.toList := by
  cases value with
  | scalar text => simp [reread]
  | list items =>
    have hcancel : (items.map String.toList).map String.ofList = items := by
      simp [List.map_map, Function.comp_def]
    have hmap : items.map (fun item => rereadItem item.toList) =
        (items.map String.toList).map rereadItem := by
      rw [List.map_map]
      rfl
    constructor
    · intro h items' hitems item hitem
      rw [FieldValue.list.injEq] at hitems
      subst hitems
      rw [reread, FieldValue.list.injEq] at h
      have htexts := congrArg (List.map String.toList) h
      rw [List.map_map, hmap] at htexts
      simp only [Function.comp_def, String.toList_ofList, List.map_id'] at htexts
      -- as many items come back as were written, so none was dropped
      have hkept : ((items.map String.toList).map rereadItem).filter (!·.isEmpty) =
          (items.map String.toList).map rereadItem := by
        apply List.filter_sublist.eq_of_length
        rw [htexts, List.length_map, List.length_map, List.length_map]
      rw [hkept] at htexts
      have hall := List.map_inj_left.1 (htexts.trans (List.map_id _).symm)
      exact (unquote_writeItem_iff item.toList).1 (hall _ (List.mem_map_of_mem hitem))
    · intro h
      have hitems : (items.map String.toList).map rereadItem = items.map String.toList := by
        refine (List.map_congr_left ?_).trans (List.map_id _)
        intro text htext
        obtain ⟨item, hitem, rfl⟩ := List.mem_map.1 htext
        exact (unquote_writeItem_iff item.toList).2 (h items rfl item hitem)
      have hkept : (items.map String.toList).filter (!·.isEmpty) = items.map String.toList := by
        rw [List.filter_eq_self]
        intro text htext
        obtain ⟨item, hitem, rfl⟩ := List.mem_map.1 htext
        simpa using (hvalue item hitem).1
      rw [reread, hmap, hitems, hkept, hcancel]

/-- Well-formed fields come back unchanged exactly if each item written without quotes is its own
trim. -/
theorem ofText_toText_eq_self_iff {d : Descriptor} (hd : Descriptor.WellFormed d) :
    Descriptor.ofText (Descriptor.toText d) = .ok d ↔
      ∀ name items, d.find? name = some (.list items) → ∀ item ∈ items,
        trim item.toList = item.toList ∨ StartsQuoted item.toList := by
  rw [ofText_toText hd, Except.ok.injEq]
  constructor
  · intro h name items hfind
    have hreread := d.find?_ofList_map reread name
    rw [h, hfind, Option.map_some, Option.some.injEq] at hreread
    exact (reread_eq_self_iff (hd name _ hfind).2).1 hreread.symm items rfl
  · intro h
    apply Table.ext_find?
    intro name
    rw [d.find?_ofList_map]
    cases hfind : d.find? name with
    | none => rfl
    | some value =>
      rw [Option.map_some, (reread_eq_self_iff (hd name value hfind).2).2]
      rintro items rfl
      exact h name items hfind

/-- **Which headers come back unchanged.** Keys are texts of ASCII letters, digits, hyphens,
underscores and full stops; no text has a line feed; and no item is empty or, if it is written
without quotes, starts or ends with a blank. -/
theorem ofText_toText_eq_ok_iff (d : Descriptor) :
    Descriptor.ofText (Descriptor.toText d) = .ok d ↔
      (∀ name ∈ d.keys, name ≠ "" ∧
        ∀ c ∈ name.toList, c.isAlphanum = true ∨ c = '-' ∨ c = '_' ∨ c = '.') ∧
      (∀ name text, d.find? name = some (.scalar text) → '\n' ∉ text.toList) ∧
      ∀ name items, d.find? name = some (.list items) → ∀ item ∈ items,
        item ≠ "" ∧ '\n' ∉ item.toList ∧
          (trim item.toList = item.toList ∨ item.toList.head? = some '"' ∨
            item.toList.head? = some '\'' ∨ ['-', ' '] <+: item.toList) := by
  constructor
  · intro h
    have hd : Descriptor.WellFormed d := by
      rw [Descriptor.ofText] at h
      cases hread : Document.ofText (Descriptor.toText d) with
      | error e => simp [hread, Except.map] at h
      | ok doc =>
        rw [hread, Except.map, Except.ok.injEq] at h
        exact h ▸ wellFormed_of_ofText hread
    have hitems := (ofText_toText_eq_self_iff hd).1 h
    refine ⟨?_, ?_, ?_⟩
    · intro name hname
      obtain ⟨value, hfind⟩ := (d.mem_keys_iff name).1 hname
      obtain ⟨hne, hchars⟩ := (isKey_iff _).1 (hd name value hfind).1
      exact ⟨by simpa using hne, fun c hc => (isKeyChar_iff c).1 (hchars c hc)⟩
    · intro name text hfind
      exact (hd name _ hfind).2
    · intro name items hfind item hitem
      obtain ⟨hne, hfeed⟩ := (hd name _ hfind).2 item hitem
      exact ⟨hne, hfeed, hitems name items hfind item hitem⟩
  · rintro ⟨hkeys, htexts, hitems⟩
    have hd : Descriptor.WellFormed d := by
      intro name value hfind
      obtain ⟨hne, hchars⟩ := hkeys name ((d.mem_keys_iff name).2 ⟨value, hfind⟩)
      refine ⟨(isKey_iff _).2 ⟨by simpa using hne, ?_⟩, ?_⟩
      · intro c hc
        exact (isKeyChar_iff c).2 (hchars c hc)
      · cases value with
        | scalar text => exact htexts name text hfind
        | list items =>
          intro item hitem
          exact ⟨(hitems name items hfind item hitem).1, (hitems name items hfind item hitem).2.1⟩
    rw [ofText_toText_eq_self_iff hd]
    intro name items hfind item hitem
    exact (hitems name items hfind item hitem).2.2

/-- **Which headers that were read come back unchanged.** Those of which no item that is written
without quotes starts or ends with a blank. -/
theorem ofText_toText_header_iff {text : String} {doc : Document}
    (h : Document.ofText text = .ok doc) :
    Descriptor.ofText (Descriptor.toText doc.header) = .ok doc.header ↔
      ∀ name items, doc.header.find? name = some (.list items) → ∀ item ∈ items,
        trim item.toList = item.toList ∨ item.toList.head? = some '"' ∨
          item.toList.head? = some '\'' ∨ ['-', ' '] <+: item.toList :=
  ofText_toText_eq_self_iff (wellFormed_of_ofText h)

/-- Items that start with a quote or like an item come back with their blanks. -/
theorem ofText_toText_quoted_items :
    Document.ofText "---\nname: \" x \"\ntools: ['\" a ', \"- b\", c]\n---\n" =
        .ok ⟨.ofList [("name", .scalar " x "), ("tools", .list ["\" a ", "- b", "c"])], ""⟩ ∧
      Descriptor.ofText (Descriptor.toText
          (.ofList [("name", .scalar " x "), ("tools", .list ["\" a ", "- b", "c"])])) =
        .ok (.ofList [("name", .scalar " x "), ("tools", .list ["\" a ", "- b", "c"])]) := by
  have hread : Document.ofText "---\nname: \" x \"\ntools: ['\" a ', \"- b\", c]\n---\n" =
      .ok ⟨.ofList [("name", .scalar " x "), ("tools", .list ["\" a ", "- b", "c"])], ""⟩ := by
    decide +kernel
  refine ⟨hread, (ofText_toText_header_iff hread).2 ?_⟩
  intro name items hfind
  rw [← Table.mem_entries_iff] at hfind
  have hentries : (Table.ofList [("name", FieldValue.scalar " x "),
        ("tools", .list ["\" a ", "- b", "c"])]).entries =
      [("name", .scalar " x "), ("tools", .list ["\" a ", "- b", "c"])] := by decide +kernel
  have hitems : name = "tools" ∧ items = ["\" a ", "- b", "c"] := by
    simpa [hentries] using hfind
  rw [hitems.2]
  decide

/-- An item that starts with a blank between its quotes comes back without the blank. -/
theorem ofText_toText_padded_item :
    Document.ofText "---\nk:\n  - \" a\"\n---\n" = .ok ⟨.ofList [("k", .list [" a"])], ""⟩ ∧
      Descriptor.ofText (Descriptor.toText (.ofList [("k", .list [" a"])])) =
        .ok (.ofList [("k", .list ["a"])]) ∧
      Descriptor.ofText (Descriptor.toText (.ofList [("k", .list [" a"])])) ≠
        .ok (.ofList [("k", .list [" a"])]) := by
  decide +kernel

end Preflight.Header

import Preflight.Header.Document
import Preflight.Proofs.Bindings
import Preflight.Proofs.Header.ValueShapes

/-!
# What the lines of a header mean

Reading a header line by line carries a state along; what comes out can be said
without one (`find?_foldl_step_iff`). The keys are those of the key lines. A key
is bound by the last key line for it: to its inline list or its scalar, or, if the
value is left to the lines after it, to the items of the unbroken run of item lines
that follows, or to the indented lines of the unbroken run of indented and blank
lines, joined by single spaces.

The proof follows one key through the lines. As long as a key is not open, lines
without it as their key change nothing about it (`step_of_not_extends`); while it
is open, exactly the lines of its run extend its value.
-/

set_option autoImplicit false

namespace Preflight.Header

open Preflight.Text

/-! ### The meaning of lines -/

/-- The text of an item line. -/
def Line.item? : Line → Option (List Char)
  | .item text => some text
  | _ => none

/-- The text of an indented line. -/
def Line.indented? : Line → Option (List Char)
  | .indented text => some text
  | _ => none

/-- Whether a line may stand in the run of lines that make up a text. -/
def Line.isIndentedOrBlank : Line → Bool
  | .indented _ => true
  | .blank => true
  | _ => false

/-- The items of the run of item lines at the start, without the empty ones. -/
def itemsAtStart (lines : List Line) : List (List Char) :=
  (((lines.takeWhile fun l => l.item?.isSome).filterMap Line.item?).map unquote).filter
    (!·.isEmpty)

/-- The texts of the indented lines in the run of indented and blank lines at the start. -/
def textsAtStart (lines : List Line) : List (List Char) :=
  (lines.takeWhile Line.isIndentedOrBlank).filterMap Line.indented?

/-- What the last key line for a key binds it to, given its value and the lines after it. -/
def meaning (value : List Char) (after : List Line) : FieldValue :=
  if value = [] then .list ((itemsAtStart after).map String.ofList)
  else if AnnouncesText value then
    .scalar (String.ofList ([' '].intercalate (textsAtStart after)))
  else if IsBracketed value then .list ((inlineItems value.tail.dropLast).map String.ofList)
  else .scalar (String.ofList (unquote value))

/-- An item line adds its item to the run at the start, unless the item is empty. -/
theorem itemsAtStart_item (text : List Char) (lines : List Line) :
    itemsAtStart (.item text :: lines) =
      [unquote text].filter (!·.isEmpty) ++ itemsAtStart lines := by
  have hitem : Line.item? (.item text) = some text := rfl
  rw [itemsAtStart, List.takeWhile_cons_of_pos rfl, List.filterMap_cons_some hitem, List.map_cons,
    ← List.singleton_append, List.filter_append, itemsAtStart]

/-- Any other line ends the run of items. -/
theorem itemsAtStart_of_not_item {line : Line} (h : line.item? = none) (lines : List Line) :
    itemsAtStart (line :: lines) = [] := by
  rw [itemsAtStart, List.takeWhile_cons_of_neg (by simp [h])]
  rfl

/-- An indented line adds its text to the run at the start. -/
theorem textsAtStart_indented (text : List Char) (lines : List Line) :
    textsAtStart (.indented text :: lines) = text :: textsAtStart lines := by
  have hindented : Line.indented? (.indented text) = some text := rfl
  rw [textsAtStart, List.takeWhile_cons_of_pos rfl, List.filterMap_cons_some hindented,
    textsAtStart]

/-- A blank line adds nothing to the run of texts and does not end it. -/
theorem textsAtStart_blank (lines : List Line) :
    textsAtStart (.blank :: lines) = textsAtStart lines := by
  rw [textsAtStart, List.takeWhile_cons_of_pos rfl, List.filterMap_cons_none rfl, textsAtStart]

/-- A line that is neither indented nor blank ends the run of texts. -/
theorem textsAtStart_of_not_indented {line : Line} (h : line.isIndentedOrBlank = false)
    (lines : List Line) : textsAtStart (line :: lines) = [] := by
  rw [textsAtStart, List.takeWhile_cons_of_neg (by simp [h])]
  rfl

/-! ### A key that is not open -/

/-- The key whose value the next line may extend. -/
def Open.name? : Open → Option (List Char)
  | .nothing => none
  | .list name _ => some name
  | .text name _ => some name

/-- Whether a line leaves what is open open. -/
def Line.extends : Line → Open → Bool
  | .item _, .list _ _ => true
  | .indented _, .text _ _ => true
  | .blank, .text _ _ => true
  | _, _ => false

/-- Binding a key leaves the others as they are. -/
theorem find?_insert_of_ne (t : Descriptor) {name other : List Char} (h : other ≠ name)
    (value : FieldValue) :
    (t.insert (String.ofList other) value).find? (String.ofList name) =
      t.find? (String.ofList name) := by
  rw [Table.find?_insert, if_neg]
  intro heq
  exact h (String.ofList_inj.1 heq)

/-- A key that is bound has the value to which it is bound. -/
theorem find?_insert_self (t : Descriptor) (name : List Char) (value : FieldValue) :
    (t.insert (String.ofList name) value).find? (String.ofList name) = some value := by
  rw [Table.find?_insert, if_pos rfl]

/-- The line of another key changes nothing about a key, which is not open after it. -/
theorem bindKey_of_ne (s : Scan) {name other : List Char} (h : other ≠ name)
    (value : List Char) :
    (s.bindKey other value).fields.find? (String.ofList name) =
        s.fields.find? (String.ofList name) ∧
      (s.bindKey other value).current.name? ≠ some name := by
  rw [Scan.bindKey]
  cases ValueShape.classify value with
  | inlineList items => exact ⟨find?_insert_of_ne _ h _, by simp [Open.name?]⟩
  | blockList => exact ⟨find?_insert_of_ne _ h _, by simp [Open.name?, h]⟩
  | blockText => exact ⟨find?_insert_of_ne _ h _, by simp [Open.name?, h]⟩
  | scalar text => exact ⟨find?_insert_of_ne _ h _, by simp [Open.name?]⟩

/-- A line that neither has a key as its own nor extends its value leaves the key as it is and not
open. -/
theorem step_of_not_extends {s : Scan} {line : Line} {name : List Char}
    (hline : ∀ value, line ≠ .key name value)
    (hopen : s.current.name? = some name → line.extends s.current = false) :
    (s.step line).fields.find? (String.ofList name) = s.fields.find? (String.ofList name) ∧
      (s.step line).current.name? ≠ some name := by
  obtain ⟨fields, current⟩ := s
  -- what the line extends, if anything, is the value of another key
  have hother : ∀ other, current.name? = some other → line.extends current = true →
      other ≠ name := by
    rintro other hname hextends rfl
    rw [hopen hname] at hextends
    exact absurd hextends (by decide)
  cases line with
  | key other value =>
    refine bindKey_of_ne _ ?_ value
    rintro rfl
    exact hline value rfl
  | item text =>
    cases current with
    | list other items =>
      have hne : other ≠ name := hother other rfl rfl
      rw [Scan.step]
      by_cases hempty : (unquote text).isEmpty = true
      · simp [hempty, Open.name?, hne]
      · simp only [hempty]
        exact ⟨find?_insert_of_ne _ hne _, by simp [Open.name?, hne]⟩
    | text other acc => exact ⟨rfl, by simp [Scan.step, Open.name?]⟩
    | nothing => exact ⟨rfl, by simp [Scan.step, Open.name?]⟩
  | indented text =>
    cases current with
    | text other acc =>
      have hne : other ≠ name := hother other rfl rfl
      exact ⟨find?_insert_of_ne _ hne _, by simp [Scan.step, Open.name?, hne]⟩
    | list other items => exact ⟨rfl, by simp [Scan.step, Open.name?]⟩
    | nothing => exact ⟨rfl, by simp [Scan.step, Open.name?]⟩
  | blank =>
    cases current with
    | text other acc =>
      have hne : other ≠ name := hother other rfl rfl
      exact ⟨rfl, by simp [Scan.step, Open.name?, hne]⟩
    | list other items => exact ⟨rfl, by simp [Scan.step, Open.name?]⟩
    | nothing => exact ⟨rfl, by simp [Scan.step, Open.name?]⟩
  | other => exact ⟨rfl, by simp [Scan.step, Open.name?]⟩

/-- Lines have no line of a key exactly if the first is none and the rest has none. -/
theorem not_mem_cons_iff {line : Line} {lines : List Line} {name : List Char} :
    (∀ value, Line.key name value ∉ line :: lines) ↔
      (∀ value, line ≠ .key name value) ∧ ∀ value, Line.key name value ∉ lines := by
  simp only [List.mem_cons, not_or, forall_and, ne_eq, eq_comm]

/-- Lines without a key that is not open leave the key as it is. -/
theorem find?_foldl_step_of_not_open {lines : List Line} {name : List Char}
    (hlines : ∀ value, Line.key name value ∉ lines) (s : Scan)
    (hopen : s.current.name? ≠ some name) :
    (lines.foldl Scan.step s).fields.find? (String.ofList name) =
      s.fields.find? (String.ofList name) := by
  induction lines generalizing s with
  | nil => rfl
  | cons line lines ih =>
    obtain ⟨hline, hrest⟩ := not_mem_cons_iff.1 hlines
    obtain ⟨hfind, hclosed⟩ := step_of_not_extends hline fun h => absurd h hopen
    rw [List.foldl_cons, ih hrest _ hclosed, hfind]

/-! ### A key that is open -/

/-- While the list of a key is open, the run of item lines extends it. -/
theorem find?_foldl_step_of_list {lines : List Line} {name : List Char}
    (hlines : ∀ value, Line.key name value ∉ lines) (s : Scan) (items : List (List Char))
    (hopen : s.current = .list name items)
    (hbound : s.fields.find? (String.ofList name) = some (.list (items.map String.ofList))) :
    (lines.foldl Scan.step s).fields.find? (String.ofList name) =
      some (.list ((items ++ itemsAtStart lines).map String.ofList)) := by
  induction lines generalizing s items with
  | nil =>
    rw [List.foldl_nil, hbound, itemsAtStart, List.takeWhile_nil]
    simp
  | cons line lines ih =>
    obtain ⟨hline, hrest⟩ := not_mem_cons_iff.1 hlines
    rw [List.foldl_cons]
    cases hitem : line.item? with
    | some text =>
      have hline : line = .item text := by
        cases line <;> simp_all [Line.item?]
      rw [hline, itemsAtStart_item]
      by_cases hempty : (unquote text).isEmpty = true
      · have hstep : s.step (.item text) = s := by simp [Scan.step, hopen, hempty]
        rw [hstep, ih hrest s items hopen hbound]
        simp [hempty]
      · have hstep : s.step (.item text) =
            ⟨s.bindList name (items ++ [unquote text]), .list name (items ++ [unquote text])⟩ := by
          simp [Scan.step, hopen, hempty]
        rw [hstep, ih hrest _ (items ++ [unquote text]) rfl (find?_insert_self _ _ _)]
        simp [hempty]
    | none =>
      -- the line closes the list, and what follows is about other keys
      have hextends : line.extends s.current = false := by
        rw [hopen]
        cases line <;> simp_all [Line.item?, Line.extends]
      obtain ⟨hfind, hclosed⟩ := step_of_not_extends hline fun _ => hextends
      rw [find?_foldl_step_of_not_open hrest _ hclosed, hfind, hbound,
        itemsAtStart_of_not_item hitem, List.append_nil]

/-- While the text of a key is open, the run of indented and blank lines extends it. -/
theorem find?_foldl_step_of_text {lines : List Line} {name : List Char}
    (hlines : ∀ value, Line.key name value ∉ lines) (s : Scan) (text : List Char)
    (hopen : s.current = .text name text)
    (hbound : s.fields.find? (String.ofList name) = some (.scalar (String.ofList text))) :
    (lines.foldl Scan.step s).fields.find? (String.ofList name) =
      some (.scalar (String.ofList ((textsAtStart lines).foldl Scan.extend text))) := by
  induction lines generalizing s text with
  | nil =>
    rw [List.foldl_nil, hbound]
    rfl
  | cons line lines ih =>
    obtain ⟨hline, hrest⟩ := not_mem_cons_iff.1 hlines
    rw [List.foldl_cons]
    cases hrun : line.isIndentedOrBlank with
    | true =>
      cases line with
      | indented more =>
        have hstep : s.step (.indented more) =
            ⟨s.bindScalar name (Scan.extend text more), .text name (Scan.extend text more)⟩ := by
          simp [Scan.step, hopen]
        rw [hstep, textsAtStart_indented, List.foldl_cons]
        exact ih hrest _ _ rfl (find?_insert_self _ _ _)
      | blank =>
        have hstep : s.step .blank = s := by simp [Scan.step, hopen]
        rw [hstep, textsAtStart_blank]
        exact ih hrest s text hopen hbound
      | _ => simp [Line.isIndentedOrBlank] at hrun
    | false =>
      -- the line closes the text, and what follows is about other keys
      have hextends : line.extends s.current = false := by
        rw [hopen]
        cases line <;> simp_all [Line.isIndentedOrBlank, Line.extends]
      obtain ⟨hfind, hclosed⟩ := step_of_not_extends hline fun _ => hextends
      rw [find?_foldl_step_of_not_open hrest _ hclosed, hfind, hbound,
        textsAtStart_of_not_indented hrun, List.foldl_nil]

/-- Texts that extend one another are joined with spaces. -/
theorem foldl_extend {text : List Char} (h : text ≠ []) (texts : List (List Char)) :
    texts.foldl Scan.extend text = [' '].intercalate (text :: texts) := by
  induction texts generalizing text with
  | nil => simp [List.intercalate]
  | cons more texts ih =>
    have hextend : Scan.extend text more = text ++ ' ' :: more := by
      simp [Scan.extend, h]
    rw [List.foldl_cons, hextend, ih (by simp)]
    cases texts <;> simp [List.intercalate]

/-- Texts that extend the empty text are joined with spaces, none before the first. -/
theorem foldl_extend_nil {texts : List (List Char)} (h : ∀ text ∈ texts, text ≠ []) :
    texts.foldl Scan.extend [] = [' '].intercalate texts := by
  cases texts with
  | nil => rfl
  | cons text texts => exact foldl_extend (h text List.mem_cons_self) texts

/-- The text of an indented line is not empty. -/
theorem textsAtStart_ne_nil {ls : List (List Char)} {lines : List Line}
    (hlines : lines <:+ ls.map Line.classify) : ∀ text ∈ textsAtStart lines, text ≠ [] := by
  intro text htext
  rw [textsAtStart, List.mem_filterMap] at htext
  obtain ⟨line, hline, hindented⟩ := htext
  have hmem : line ∈ ls.map Line.classify :=
    hlines.subset ((List.takeWhile_sublist _).subset hline)
  obtain ⟨l, -, rfl⟩ := List.mem_map.1 hmem
  have hwithin := classify_within l
  cases hclass : Line.classify l with
  | indented more =>
    rw [hclass] at hwithin hindented
    rw [Line.indented?, Option.some.injEq] at hindented
    exact hindented ▸ hwithin.1
  | _ => simp [hclass, Line.indented?] at hindented

/-- After the last key line for a key, the key is bound to its meaning. -/
theorem find?_foldl_step_bindKey {name : List Char} {after : List Line}
    (hafter : ∀ value, Line.key name value ∉ after)
    (htexts : ∀ text ∈ textsAtStart after, text ≠ [])
    (s : Scan) (value : List Char) :
    (after.foldl Scan.step (s.bindKey name value)).fields.find? (String.ofList name) =
      some (meaning value after) := by
  rw [Scan.bindKey, meaning, classify_eq]
  split_ifs
  · exact find?_foldl_step_of_list hafter _ [] rfl (find?_insert_self _ _ _)
  · rw [← foldl_extend_nil htexts]
    exact find?_foldl_step_of_text hafter _ [] rfl (find?_insert_self _ _ _)
  · dsimp only
    rw [find?_foldl_step_of_not_open hafter _ (by simp [Open.name?])]
    exact find?_insert_self _ _ _
  · dsimp only
    rw [find?_foldl_step_of_not_open hafter _ (by simp [Open.name?])]
    exact find?_insert_self _ _ _

/-! ### The last key line -/

/-- Lines with a line of a key have a last one. -/
theorem exists_last_keyLine {lines : List Line} {name : List Char}
    (h : ∃ value, Line.key name value ∈ lines) :
    ∃ before value after, lines = before ++ .key name value :: after ∧
      ∀ value', Line.key name value' ∉ after := by
  induction lines with
  | nil => simp at h
  | cons line lines ih =>
    by_cases hlater : ∃ value, Line.key name value ∈ lines
    · obtain ⟨before, value, after, rfl, hafter⟩ := ih hlater
      exact ⟨line :: before, value, after, rfl, hafter⟩
    · obtain ⟨value, hmem⟩ := h
      rcases List.mem_cons.1 hmem with rfl | hmem
      · exact ⟨[], value, lines, rfl, not_exists.1 hlater⟩
      · exact absurd ⟨value, hmem⟩ hlater

/-- **What the lines of a header mean.** The keys are those of the key lines, and each is bound to
the meaning of the last key line for it. -/
theorem find?_foldl_step_iff (ls : List (List Char)) (name : String) :
    let lines := ls.map Line.classify
    let fields := (lines.foldl Scan.step .start).fields
    (name ∈ fields.keys ↔ ∃ value, Line.key name.toList value ∈ lines) ∧
      ∀ v, fields.find? name = some v ↔
        ∃ before value after, lines = before ++ .key name.toList value :: after ∧
          (∀ value', Line.key name.toList value' ∉ after) ∧ v = meaning value after := by
  intro lines fields
  have hname : String.ofList name.toList = name := String.ofList_toList
  have hbound : ∀ before value after, lines = before ++ .key name.toList value :: after →
      (∀ value', Line.key name.toList value' ∉ after) →
      fields.find? name = some (meaning value after) := by
    intro before value after hlines hafter
    have hsuffix : after <:+ ls.map Line.classify :=
      ⟨before ++ [.key name.toList value], by simpa using hlines.symm⟩
    have htexts : ∀ text ∈ textsAtStart after, text ≠ [] := textsAtStart_ne_nil hsuffix
    have hfields : fields = (after.foldl Scan.step
        ((before.foldl Scan.step .start).bindKey name.toList value)).fields := by
      simp only [fields, hlines, List.foldl_append, List.foldl_cons]
      rfl
    rw [hfields, ← find?_foldl_step_bindKey hafter htexts, hname]
  have hkeys : (∃ v, fields.find? name = some v) ↔
      ∃ value, Line.key name.toList value ∈ lines := by
    constructor
    · rintro ⟨v, hv⟩
      by_contra hnone
      have hunbound := find?_foldl_step_of_not_open (not_exists.1 hnone) .start
        (by simp [Scan.start, Open.name?])
      rw [hname] at hunbound
      rw [hunbound] at hv
      simp [Scan.start] at hv
    · intro h
      obtain ⟨before, value, after, hlines, hafter⟩ := exists_last_keyLine h
      exact ⟨_, hbound before value after hlines hafter⟩
  refine ⟨(fields.mem_keys_iff name).trans hkeys, ?_⟩
  intro v
  constructor
  · intro hv
    obtain ⟨before, value, after, hlines, hafter⟩ := exists_last_keyLine (hkeys.1 ⟨v, hv⟩)
    refine ⟨before, value, after, hlines, hafter, ?_⟩
    rw [hbound before value after hlines hafter, Option.some.injEq] at hv
    exact hv.symm
  · rintro ⟨before, value, after, hlines, hafter, rfl⟩
    exact hbound before value after hlines hafter

end Preflight.Header

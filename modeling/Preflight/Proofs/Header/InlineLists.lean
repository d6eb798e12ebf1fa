import Mathlib.Data.List.Infix
import Preflight.Proofs.Header.ListSpellings

/-!
# Lists between brackets

An item of a list between brackets stands for itself or is written between single
quotes. Where the list is cut, a plain item is told by its parentheses: after each of
its beginnings the nesting is the number of those that are open (`after_of_opened`), so
commas under parentheses do not cut it, and neither do commas between quotes, which a
quote that is written twice closes and opens again. Both kinds of item lead back outside.

So a list of such items is read as its items, whatever spaces and tabs stand around them
and however many commas stand between them (`ofText_inlineList`).
-/

set_option autoImplicit false

namespace Preflight.Header

open Preflight.Text

/-! ### Items that stand for themselves -/

/-- A text that stands for itself between brackets: it is trimmed and has no quotes, its parentheses
are balanced, none is closed that is not open, and all its commas stand under parentheses. -/
structure IsPlain (s : List Char) : Prop where
  ne_nil : s ≠ []
  trimmed : trim s = s
  no_double : '"' ∉ s
  no_single : '\'' ∉ s
  no_feed : '\n' ∉ s
  closed : s.count ')' = s.count '('
  opened : ∀ start, start <+: s → start.count ')' ≤ start.count '('
  covered : ∀ start, start ++ [','] <+: s → start.count ')' < start.count '('

instance (s : List Char) : Decidable (IsPlain s) :=
  decidable_of_iff
    (s ≠ [] ∧ trim s = s ∧ '"' ∉ s ∧ '\'' ∉ s ∧ '\n' ∉ s ∧ s.count ')' = s.count '(' ∧
      ∀ start ∈ s.inits, start.count ')' ≤ start.count '(' ∧
        (start ++ [','] <+: s → start.count ')' < start.count '(')) <| by
    simp only [List.mem_inits, forall_and]
    constructor
    · rintro ⟨hne, htrim, hdouble, hsingle, hfeed, hclosed, hopened, hcovered⟩
      exact ⟨hne, htrim, hdouble, hsingle, hfeed, hclosed, hopened, fun start h =>
        hcovered start ((List.prefix_append start [',']).trans h) h⟩
    · intro h
      exact ⟨h.ne_nil, h.trimmed, h.no_double, h.no_single, h.no_feed, h.closed, h.opened,
        fun start _ => h.covered start⟩

namespace Nesting

/-- Without quotes, the nesting is the number of open parentheses, and a text is not broken at commas
that stand under one. -/
theorem after_of_opened {s : List Char} (hdouble : '"' ∉ s) (hsingle : '\'' ∉ s)
    (hopened : ∀ start, start <+: s → start.count ')' ≤ start.count '(')
    (hcovered : ∀ start, start ++ [','] <+: s → start.count ')' < start.count '(') :
    outside.after s = ⟨none, s.count '(' - s.count ')'⟩ ∧ outside.Unbroken s := by
  induction s using List.reverseRecOn with
  | nil => exact ⟨rfl, trivial⟩
  | append_singleton s c ih =>
    have hstart : s <+: s ++ [c] := List.prefix_append s [c]
    rw [List.mem_append, List.mem_singleton, not_or] at hdouble hsingle
    obtain ⟨hafter, hunbroken⟩ := ih hdouble.1 hsingle.1
      (fun start h => hopened start (h.trans hstart)) fun start h => hcovered start (h.trans hstart)
    constructor
    · have hle := hopened s hstart
      rw [after_append, hafter, after, List.foldl_cons, List.foldl_nil, next, if_neg (by simp [Ne.symm hdouble.2, Ne.symm hsingle.2])]
      by_cases hopen : c = '('
      · simp [hopen]
        omega
      · by_cases hclose : c = ')'
        · simp [hclose]
          omega
        · simp [hopen, hclose]
    · rw [unbroken_append_iff]
      refine ⟨hunbroken, ?_, trivial⟩
      rintro ⟨rfl, houtside⟩
      have hlt := hcovered s (List.prefix_refl _)
      rw [hafter, outside, Nesting.mk.injEq] at houtside
      omega

end Nesting

/-! ### Items between single quotes -/

/-- What stands between the single quotes of a text: each single quote is written twice. -/
def doubleQuotes (s : List Char) : List Char :=
  s.flatMap fun c => if c = '\'' then ['\'', '\''] else [c]

/-- A text between single quotes. -/
def singleQuote (s : List Char) : List Char :=
  '\'' :: (doubleQuotes s ++ ['\''])

/-- Single quotes that are written twice are read once. -/
theorem undouble_doubleQuotes (s : List Char) : undouble (doubleQuotes s) = s := by
  induction s with
  | nil => rfl
  | cons c s ih =>
    by_cases hc : c = '\''
    · subst hc
      have hpass : undouble (doubleQuotes ('\'' :: s)) = '\'' :: undouble (doubleQuotes s) :=
        replaceAll_append (by simp) (doubleQuotes s)
      rw [hpass, ih]
    · have hdouble : doubleQuotes (c :: s) = c :: doubleQuotes s := by
        simp [doubleQuotes, hc]
      rw [hdouble, undouble, replaceAll_cons (by simp [List.isPrefixOf, Ne.symm hc]), ← undouble, ih]

/-- A text between single quotes is read back. -/
theorem unquote_singleQuote (s : List Char) : unquote (singleQuote s) = s := by
  have htrim : trim (singleQuote s) = singleQuote s :=
    trim_cons_concat (by decide) (by decide) (doubleQuotes s)
  have hsingle : between? '\'' (singleQuote s) = some (doubleQuotes s) :=
    between?_eq_some_iff.2 rfl
  have hdouble : between? '"' (singleQuote s) = none :=
    between?_eq_none (by simp [singleQuote])
  simp only [unquote, htrim, hdouble, hsingle, undouble_doubleQuotes]

/-- Single quotes add no line feed. -/
theorem feed_not_mem_singleQuote {s : List Char} (h : '\n' ∉ s) : '\n' ∉ singleQuote s := by
  have hdouble : '\n' ∉ doubleQuotes s := by
    intro hmem
    obtain ⟨c, hc, hfeed⟩ := List.mem_flatMap.1 hmem
    split at hfeed
    · simp at hfeed
    · exact h (List.mem_singleton.1 hfeed ▸ hc)
  simp [singleQuote, hdouble]

namespace Nesting

/-- Just after a single quote that stands outside. -/
def inSingleQuotes : Nesting := ⟨some '\'', 0⟩

/-- A quote that is written twice closes the quotes and opens them again. -/
theorem after_doubleQuotes (s : List Char) :
    inSingleQuotes.after (doubleQuotes s) = inSingleQuotes ∧
      inSingleQuotes.Unbroken (doubleQuotes s) := by
  induction s with
  | nil => exact ⟨rfl, trivial⟩
  | cons c s ih =>
    have happend : doubleQuotes (c :: s) =
        (if c = '\'' then ['\'', '\''] else [c]) ++ doubleQuotes s := List.flatMap_cons
    have hpiece : inSingleQuotes.after (if c = '\'' then ['\'', '\''] else [c]) = inSingleQuotes ∧
        inSingleQuotes.Unbroken (if c = '\'' then ['\'', '\''] else [c]) := by
      by_cases hc : c = '\''
      · rw [if_pos hc]
        decide
      · rw [if_neg hc]
        exact ⟨by simp [after, next, inSingleQuotes, hc], by simp [inSingleQuotes, outside], trivial⟩
    rw [happend, unbroken_append_iff, after_append, hpiece.1]
    exact ⟨ih.1, hpiece.2, ih.2⟩

/-- A text between single quotes is one piece, and the nesting after it is as before. -/
theorem after_singleQuote (s : List Char) :
    outside.after (singleQuote s) = outside ∧ outside.Unbroken (singleQuote s) := by
  obtain ⟨hafter, hunbroken⟩ := after_doubleQuotes s
  have hquoted : outside.after (singleQuote s) =
      (inSingleQuotes.after (doubleQuotes s)).after ['\''] := after_append ..
  have hbroken : outside.Unbroken (singleQuote s) ↔
      inSingleQuotes.Unbroken (doubleQuotes s ++ ['\'']) := and_iff_right (by simp)
  rw [hquoted, hbroken, unbroken_append_iff, hafter]
  exact ⟨by decide, hunbroken, by decide⟩

end Nesting

/-! ### Slots -/

/-- An item as it is written between brackets. -/
inductive WrittenItem where
  /-- The text stands for itself. -/
  | plain (text : List Char)
  /-- The text stands between single quotes. -/
  | quoted (text : List Char)

namespace WrittenItem

/-- The item itself. -/
def text : WrittenItem → List Char
  | plain text => text
  | quoted text => text

def written : WrittenItem → List Char
  | plain text => text
  | quoted text => singleQuote text

/-- The text can be written in this way. -/
def IsValid : WrittenItem → Prop
  | plain text => IsPlain text
  | quoted text => text ≠ [] ∧ '\n' ∉ text

variable {item : WrittenItem} (h : item.IsValid)

include h

/-- No item is empty. -/
theorem text_ne_nil : item.text ≠ [] := by
  cases item with
  | plain text => exact h.ne_nil
  | quoted text => exact h.1

/-- An item is written without line feeds. -/
theorem feed_not_mem_written : '\n' ∉ item.written := by
  cases item with
  | plain text => exact h.no_feed
  | quoted text => exact feed_not_mem_singleQuote h.2

/-- An item is read from what is written for it. -/
theorem unquote_written : unquote item.written = item.text := by
  cases item with
  | plain text =>
    exact unquote_eq_self h.trimmed (fun hc => h.no_double (List.mem_of_mem_head? hc))
      fun hc => h.no_single (List.mem_of_mem_head? hc)
  | quoted text => exact unquote_singleQuote text

/-- Where a list is cut, a written item is in one piece and leads back outside. -/
theorem after_written :
    Nesting.outside.after item.written = .outside ∧ Nesting.outside.Unbroken item.written := by
  cases item with
  | plain text =>
    obtain ⟨hafter, hunbroken⟩ :=
      Nesting.after_of_opened h.no_double h.no_single h.opened h.covered
    refine ⟨?_, hunbroken⟩
    rw [written, hafter, h.closed, Nat.sub_self]
    rfl
  | quoted text => exact Nesting.after_singleQuote text

end WrittenItem

/-- What stands between two commas of a list: an item, or nothing, with spaces and tabs around it. -/
structure Slot where
  before : List Char
  item? : Option WrittenItem
  after : List Char

namespace Slot

/-- The item in a slot, if there is one. -/
def text? (slot : Slot) : Option (List Char) :=
  slot.item?.map WrittenItem.text

def written (slot : Slot) : List Char :=
  slot.before ++ (slot.item?.elim [] WrittenItem.written ++ slot.after)

structure IsValid (slot : Slot) : Prop where
  before : ∀ c ∈ slot.before, c = ' ' ∨ c = '\t'
  item : ∀ item ∈ slot.item?, item.IsValid
  after : ∀ c ∈ slot.after, c = ' ' ∨ c = '\t'

/-- A space and a tab are blanks. -/
theorem isBlank_of_space {c : Char} (h : c = ' ' ∨ c = '\t') : isBlank c = true := by
  rcases h with rfl | rfl <;> decide

/-- Spaces and tabs change nothing outside. -/
theorem after_spaces {s : List Char} (h : ∀ c ∈ s, c = ' ' ∨ c = '\t') :
    Nesting.outside.after s = .outside ∧ Nesting.outside.Unbroken s := by
  induction s with
  | nil => exact ⟨rfl, trivial⟩
  | cons c s ih =>
    obtain ⟨hc, hs⟩ := List.forall_mem_cons.1 h
    have hnext : Nesting.outside.next c = .outside ∧ c ≠ ',' := by
      rcases hc with rfl | rfl <;> decide
    obtain ⟨hafter, hunbroken⟩ := ih hs
    refine ⟨?_, fun hcomma => hnext.2 hcomma.1, ?_⟩
    · rw [Nesting.after, List.foldl_cons, hnext.1]
      exact hafter
    · rwa [hnext.1]

variable {slot : Slot} (h : slot.IsValid)

include h

/-- A slot is one piece, and the nesting after it is outside. -/
theorem after_written :
    Nesting.outside.after slot.written = .outside ∧ Nesting.outside.Unbroken slot.written := by
  obtain ⟨hbefore, hunbroken⟩ := after_spaces h.before
  have hitem : Nesting.outside.after (slot.item?.elim [] WrittenItem.written) = .outside ∧
      Nesting.outside.Unbroken (slot.item?.elim [] WrittenItem.written) := by
    cases hslot : slot.item? with
    | none => exact ⟨rfl, trivial⟩
    | some item => exact WrittenItem.after_written (h.item item hslot)
  obtain ⟨hafter, hend⟩ := after_spaces h.after
  rw [written, Nesting.after_append, Nesting.after_append, Nesting.unbroken_append_iff,
    Nesting.unbroken_append_iff, hbefore, hitem.1]
  exact ⟨hafter, hunbroken, hitem.2, hend⟩

/-- Without the spaces and tabs around it, a slot is its item. -/
theorem unquote_written : unquote slot.written = slot.text?.getD [] := by
  have htrim : trim slot.written = trim (slot.item?.elim [] WrittenItem.written) := by
    rw [written, trim_blank_append fun c hc => isBlank_of_space (h.before c hc),
      trim_append_blank _ fun c hc => isBlank_of_space (h.after c hc)]
  have hunquote : unquote slot.written = unquote (slot.item?.elim [] WrittenItem.written) := by
    simp only [unquote, htrim]
  rw [hunquote, text?]
  cases hslot : slot.item? with
  | none => rfl
  | some item => exact WrittenItem.unquote_written (h.item item hslot)

/-- A slot is written without line feeds. -/
theorem feed_not_mem_written : '\n' ∉ slot.written := by
  have hspaces {s : List Char} (hs : ∀ c ∈ s, c = ' ' ∨ c = '\t') : '\n' ∉ s :=
    fun hmem => absurd (hs _ hmem) (by decide)
  have hitem : '\n' ∉ slot.item?.elim [] WrittenItem.written := by
    cases hslot : slot.item? with
    | none => exact List.not_mem_nil
    | some item => exact WrittenItem.feed_not_mem_written (h.item item hslot)
  simp [written, hspaces h.before, hspaces h.after, hitem]

/-- A slot that holds an item holds a text that is not empty. -/
theorem text?_ne_nil {text : List Char} (htext : slot.text? = some text) : text ≠ [] := by
  obtain ⟨item, hitem, rfl⟩ := Option.map_eq_some_iff.1 htext
  exact WrittenItem.text_ne_nil (h.item item hitem)

end Slot

/-! ### Lists of slots -/

/-- The items that are left of slots are those of the slots that have one. -/
theorem filter_map_unquote_written {slots : List Slot} (h : ∀ slot ∈ slots, slot.IsValid) :
    ((slots.map Slot.written).map unquote).filter (!·.isEmpty) = slots.filterMap Slot.text? := by
  induction slots with
  | nil => rfl
  | cons slot slots ih =>
    obtain ⟨hslot, hslots⟩ := List.forall_mem_cons.1 h
    rw [List.map_cons, List.map_cons, Slot.unquote_written hslot]
    cases htext : slot.text? with
    | none =>
      rw [Option.getD_none, List.filter_cons_of_neg (by simp), List.filterMap_cons_none htext,
        ih hslots]
    | some text =>
      have hne := Slot.text?_ne_nil hslot htext
      rw [Option.getD_some, List.filter_cons_of_pos (by simpa using hne),
        List.filterMap_cons_some htext, ih hslots]

/-- Slots between brackets are read as their items. -/
theorem inlineItems_slots {slots : List Slot} (h : ∀ slot ∈ slots, slot.IsValid) :
    inlineItems ([','].intercalate (slots.map Slot.written)) = slots.filterMap Slot.text? := by
  cases slots with
  | nil => decide
  | cons slot slots =>
    have hpieces : pieces .outside ([','].intercalate ((slot :: slots).map Slot.written)) =
        (slot :: slots).map Slot.written := by
      refine (pieces_intercalate_iff (by simp)).2 ⟨?_, fun p hp => ?_⟩
      · exact List.forall_mem_map.2 fun s hs => (Slot.after_written (h s hs)).2
      · obtain ⟨s, hs, rfl⟩ := List.mem_map.1 (List.dropLast_subset _ hp)
        exact (Slot.after_written (h s hs)).1
    rw [inlineItems, hpieces, filter_map_unquote_written h]

/-- A list between brackets, its slots between commas. -/
def inlineList (slots : List Slot) : List Char :=
  '[' :: ([','].intercalate (slots.map Slot.written) ++ [']'])

/-- **Lists between brackets.** Whatever plain and quoted items stand in the slots of a list, with
however many empty slots between them, the value is read as exactly these items in this order; and so
is the field of the key before it, after any other lines and before any body. -/
theorem ofText_inlineList {slots : List Slot} (hslots : ∀ slot ∈ slots, slot.IsValid)
    {before : List (List Char)} (hbefore : ∀ line ∈ before, '\n' ∉ line ∧ isDelimiter line = false)
    {name : List Char} (hname : isKey name = true) (body : String) :
    ValueShape.classify (inlineList slots) = .inlineList (slots.filterMap Slot.text?) ∧
      Document.ofText (documentText (before ++ [name ++ ':' :: ' ' :: inlineList slots]) body) =
        .ok ⟨(fieldsOf before).insert (String.ofList name)
          (.list ((slots.filterMap Slot.text?).map String.ofList)), body⟩ := by
  have hfeeds : '\n' ∉ [','].intercalate (slots.map Slot.written) :=
    not_mem_intercalate (by decide)
      (List.forall_mem_map.2 fun slot hslot => Slot.feed_not_mem_written (hslots slot hslot))
  have hlines : ∀ line ∈ before ++ [name ++ ':' :: ' ' :: inlineList slots],
      '\n' ∉ line ∧ isDelimiter line = false :=
    List.forall_mem_append.2
      ⟨hbefore, List.forall_mem_singleton.2 (brackets_line hname hfeeds)⟩
  constructor
  · rw [inlineList, classify_brackets, inlineItems_slots hslots]
  · rw [ofText_documentText hlines, inlineList, fieldsOf_brackets before hname,
      inlineItems_slots hslots]

/-- A list with commas and a parenthesis inside its items, and with three slots too many. -/
def crowdedSlots : List Slot :=
  [⟨[' '], none, []⟩, ⟨[' '], some (.plain "Bash(git add, git commit)".toList), [' ']⟩,
    ⟨[], none, []⟩, ⟨['\t'], some (.quoted "it's, (ok".toList), [' ']⟩, ⟨[], none, []⟩]

/-- The slots of the example may stand in an inline list. -/
theorem isValid_crowdedSlots : ∀ slot ∈ crowdedSlots, slot.IsValid := by
  have hplain : IsPlain "Bash(git add, git commit)".toList := by decide +kernel
  have hempty : Slot.IsValid ⟨[], none, []⟩ := ⟨by simp, by simp, by simp⟩
  unfold crowdedSlots
  simp only [List.forall_mem_cons, List.not_mem_nil, false_implies, implies_true, and_true]
  refine ⟨⟨by simp, by simp, by simp⟩, ⟨by simp, ?_, by simp⟩, hempty,
    ⟨by simp, ?_, by simp⟩, hempty⟩
  · rintro item ⟨rfl⟩
    exact hplain
  · rintro item ⟨rfl⟩
    exact ⟨by decide +kernel, by decide +kernel⟩

/-- An inline list with empty slots, commas under parentheses and in quotes, and blanks about its items.
-/
theorem ofText_inlineList_of_crowdedSlots :
    Document.ofText
        "---\nn: x\nk: [ , Bash(git add, git commit) ,,\t'it''s, (ok' ,]\n---\nbody" =
      .ok ⟨.ofList [("k", .list ["Bash(git add, git commit)", "it's, (ok"]), ("n", .scalar "x")],
        "body"⟩ := by
  obtain ⟨-, hread⟩ := @ofText_inlineList crowdedSlots isValid_crowdedSlots ["n: x".toList]
    (by decide +kernel) ['k'] (by decide) "body"
  have hfields : (fieldsOf ["n: x".toList]).insert (String.ofList ['k'])
        (.list ((crowdedSlots.filterMap Slot.text?).map String.ofList)) =
      .ofList [("k", .list ["Bash(git add, git commit)", "it's, (ok"]), ("n", .scalar "x")] := by
    decide +kernel
  rw [hfields] at hread
  exact hread

end Preflight.Header

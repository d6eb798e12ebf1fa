import Preflight.Proofs.Header.LineClasses

/-!
# Shapes of header values

What the value after a key can be read as: nothing leaves a list to the lines after
it, one of six markers a text, and brackets hold a list (`classify_eq`). Everything
that is taken out of a value is part of it, and an inline list has no empty item (`classify_withinValue`); a
scalar is written so that it is read as the same scalar (`classify_writeScalar`),
and an item so that it is read as the same item unless it starts or ends with a
blank and is not quoted (`unquote_writeItem`).
-/

set_option autoImplicit false

namespace Preflight.Header

open Preflight.Text

/-! ### Which value has which shape -/

/-- Whether a value announces a text on the lines after it. -/
def AnnouncesText (value : List Char) : Prop :=
  value ∈ ["|", ">", "|-", ">-", "|+", ">+"].map String.toList

instance (value : List Char) : Decidable (AnnouncesText value) :=
  inferInstanceAs (Decidable (value ∈ ["|", ">", "|-", ">-", "|+", ">+"].map String.toList))

/-- Whether a value stands between brackets. -/
def IsBracketed (value : List Char) : Prop :=
  value.head? = some '[' ∧ value.tail.getLast? = some ']'

instance (value : List Char) : Decidable (IsBracketed value) :=
  inferInstanceAs (Decidable (_ ∧ _))

/-- The shape of a value in terms of its characters. -/
theorem classify_eq (value : List Char) :
    ValueShape.classify value =
      if value = [] then .blockList
      else if AnnouncesText value then .blockText
      else if IsBracketed value then .inlineList (inlineItems value.tail.dropLast)
      else .scalar (unquote value) := by
  have hmarkers : blockMarkers.contains value = true ↔ AnnouncesText value := by
    rw [List.contains_iff_mem]
    exact Iff.rfl
  unfold ValueShape.classify
  cases value with
  | nil => rfl
  | cons c rest =>
    rw [if_neg (by simp), if_neg (List.cons_ne_nil c rest)]
    simp only [hmarkers]
    by_cases htext : AnnouncesText (c :: rest)
    · rw [if_pos htext, if_pos htext]
    · rw [if_neg htext, if_neg htext]
      by_cases hc : c = '['
      · subst hc
        by_cases hlast : rest.getLast? = some ']' <;> simp [IsBracketed, hlast]
      · simp [IsBracketed, hc]

/-- Exactly an empty value leaves the items of a list to the lines after it. -/
theorem classify_eq_blockList_iff (value : List Char) :
    ValueShape.classify value = .blockList ↔ value = [] := by
  rw [classify_eq]
  split_ifs with hempty <;> simp [hempty]

/-- Exactly the markers leave a text to the lines after them. -/
theorem classify_eq_blockText_iff (value : List Char) :
    ValueShape.classify value = .blockText ↔ AnnouncesText value := by
  rw [classify_eq]
  split_ifs with hempty htext
  · subst hempty
    simp [AnnouncesText]
  all_goals simp [htext]

/-- Brackets hold the items between them. -/
theorem classify_brackets (inside : List Char) :
    ValueShape.classify ('[' :: (inside ++ [']'])) = .inlineList (inlineItems inside) := by
  have htext : ¬AnnouncesText ('[' :: (inside ++ [']'])) := by simp [AnnouncesText]
  have hbrackets : IsBracketed ('[' :: (inside ++ [']'])) := by simp [IsBracketed]
  rw [classify_eq, if_neg (List.cons_ne_nil _ _), if_neg htext, if_pos hbrackets, List.tail_cons,
    List.dropLast_concat]

/-! ### What is taken out of a value -/

/-- The pieces are parts of the text. -/
theorem pieces_sublist {n : Nesting} {s piece : List Char} (h : piece ∈ pieces n s) :
    piece.Sublist s := by
  induction s generalizing n piece with
  | nil =>
    rw [pieces, List.mem_singleton] at h
    rw [h]
  | cons c rest ih =>
    rw [pieces] at h
    by_cases hcomma : c = ',' ∧ n = .outside
    · rw [if_pos hcomma, List.mem_cons] at h
      rcases h with rfl | h
      · exact List.nil_sublist _
      · exact (ih h).trans (List.sublist_cons_self c rest)
    · rw [if_neg hcomma] at h
      cases hpieces : pieces (n.next c) rest with
      | nil =>
        rw [hpieces, List.mem_singleton] at h
        rw [h]
        exact (List.nil_sublist rest).cons_cons c
      | cons first more =>
        simp only [hpieces, List.mem_cons] at h
        rcases h with rfl | h
        · have hfirst : first ∈ pieces (n.next c) rest := by rw [hpieces]; exact List.mem_cons_self
          exact (ih hfirst).cons_cons c
        · have hpiece : piece ∈ pieces (n.next c) rest := by
            rw [hpieces]
            exact List.mem_cons_of_mem _ h
          exact (ih hpiece).trans (List.sublist_cons_self c rest)

/-- The items of an inline list are parts of it, none of them empty. -/
theorem inlineItems_sublist {inside item : List Char} (h : item ∈ inlineItems inside) :
    item ≠ [] ∧ item.Sublist inside := by
  rw [inlineItems, List.mem_filter, List.mem_map] at h
  obtain ⟨⟨piece, hpiece, rfl⟩, hne⟩ := h
  refine ⟨by simpa using hne, ?_⟩
  exact (unquote_sublist piece).trans (pieces_sublist hpiece)

/-- A shape whose texts are parts of a value and whose items are not empty. -/
def ValueShape.Within (value : List Char) : ValueShape → Prop
  | .inlineList items => ∀ item ∈ items, item ≠ [] ∧ item.Sublist value
  | .blockList => True
  | .blockText => True
  | .scalar text => text.Sublist value

/-- What is taken out of a value is part of the value. -/
theorem classify_withinValue (value : List Char) :
    (ValueShape.classify value).Within value := by
  rw [classify_eq]
  split_ifs
  · trivial
  · trivial
  · intro item hitem
    obtain ⟨hne, hpart⟩ := inlineItems_sublist hitem
    exact ⟨hne, hpart.trans ((List.dropLast_sublist _).trans (List.tail_sublist value))⟩
  · exact unquote_sublist value

/-! ### Values as they are written -/

/-- A value that starts with a character that is no marker of another shape is a scalar. -/
theorem classify_scalar {value : List Char} {c : Char} (hhead : value.head? = some c)
    (hc : c ≠ '[' ∧ c ≠ '|' ∧ c ≠ '>') :
    ValueShape.classify value = .scalar (unquote value) := by
  have htext : ¬AnnouncesText value := by
    intro h
    have hmarkers : ∀ marker ∈ ["|", ">", "|-", ">-", "|+", ">+"].map String.toList,
        marker.head? = some '|' ∨ marker.head? = some '>' := by decide
    rcases hmarkers value h with hbar | hangle
    · exact hc.2.1 (Option.some.inj (hhead.symm.trans hbar))
    · exact hc.2.2 (Option.some.inj (hhead.symm.trans hangle))
  have hbrackets : ¬IsBracketed value := by
    rintro ⟨hopen, -⟩
    exact hc.1 (Option.some.inj (hhead.symm.trans hopen))
  have hne : value ≠ [] := by
    rintro rfl
    cases hhead
  rw [classify_eq, if_neg hne, if_neg htext, if_neg hbrackets]

/-- A text that needs no quotes is trimmed and begins with none of the characters that mean something.
-/
theorem needsQuotes_eq_false {s : List Char} (h : needsQuotes s = false) :
    trim s = s ∧ ∃ c, s.head? = some c ∧
      c ≠ '[' ∧ c ≠ '"' ∧ c ≠ '\'' ∧ c ≠ '|' ∧ c ≠ '>' ∧ c ≠ '#' := by
  cases s with
  | nil => simp [needsQuotes] at h
  | cons c rest => simpa [needsQuotes] using h

/-- What is printed for a scalar is trimmed. -/
theorem trim_writeScalar (s : List Char) : trim (writeScalar s) = writeScalar s := by
  rw [writeScalar]
  by_cases hquotes : needsQuotes s = true
  · rw [if_pos hquotes, trim_quote]
  · rw [if_neg hquotes]
    rw [Bool.not_eq_true] at hquotes
    exact (needsQuotes_eq_false hquotes).1

/-- A written scalar is read as the scalar. -/
theorem classify_writeScalar (s : List Char) :
    ValueShape.classify (writeScalar s) = .scalar s := by
  rw [writeScalar]
  by_cases hquotes : needsQuotes s = true
  · rw [if_pos hquotes, classify_scalar (c := '"') rfl (by decide), unquote_quoted]
  · rw [if_neg hquotes]
    rw [Bool.not_eq_true] at hquotes
    obtain ⟨htrim, c, hhead, hbracket, hdouble, hsingle, hbar, hangle, -⟩ :=
      needsQuotes_eq_false hquotes
    rw [classify_scalar hhead ⟨hbracket, hbar, hangle⟩]
    congr 1
    refine unquote_eq_self htrim ?_ ?_
    · rw [hhead]
      simpa using hdouble
    · rw [hhead]
      simpa using hsingle

/-- Whether an item is written between quotes: it starts like a quoted text or like an item. -/
def StartsQuoted (s : List Char) : Prop :=
  s.head? = some '"' ∨ s.head? = some '\'' ∨ ['-', ' '] <+: s

/-- An item that starts as if it were quoted is printed in quotes. -/
theorem writeItem_of_quoted {s : List Char} (h : StartsQuoted s) : writeItem s = quote s := by
  rw [writeItem, if_pos]
  simpa [StartsQuoted, List.isPrefixOf_iff_prefix] using h

/-- Any other item is printed as it stands. -/
theorem writeItem_of_not_quoted {s : List Char} (h : ¬ StartsQuoted s) : writeItem s = s := by
  rw [writeItem, if_neg]
  simpa [StartsQuoted, List.isPrefixOf_iff_prefix] using h

/-- A written item is read as the item exactly if it is its own trim or was quoted. -/
theorem unquote_writeItem_iff (s : List Char) :
    unquote (trim (writeItem s)) = s ↔ trim s = s ∨ StartsQuoted s := by
  by_cases hquoted : StartsQuoted s
  · rw [writeItem_of_quoted hquoted, trim_quote, unquote_quoted]
    simp [hquoted]
  · rw [writeItem_of_not_quoted hquoted]
    constructor
    · intro h
      refine .inl ((trim_sublist s).eq_of_length_le ?_)
      have hlen := (unquote_sublist (trim s)).length_le
      rw [h] at hlen
      exact hlen
    · rintro (htrim | h)
      · rw [StartsQuoted, not_or, not_or] at hquoted
        rw [htrim, unquote_eq_self htrim hquoted.1 hquoted.2.1]
      · exact absurd h hquoted

end Preflight.Header

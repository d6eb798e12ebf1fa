import Mathlib.Data.List.Basic
import Preflight.Proofs.Path.Steps

/-!
# Texts of cleaned paths

Folding only takes steps away, and between two steps that stay one separator is enough.
So the text of a cleaned path is a sublist of the text of the path
(`text_clean_sublist`): it holds no other characters and is not longer.
-/

set_option autoImplicit false

namespace Preflight

namespace Text

/-- Joining fewer parts leaves part of the text. -/
theorem intercalate_sublist (sep : List Char) {l l' : List (List Char)} (h : l.Sublist l') :
    (sep.intercalate l).Sublist (sep.intercalate l') := by
  induction h with
  | slnil => exact List.Sublist.refl _
  | @cons l l' first h ih =>
    by_cases hne : l' = []
    · subst hne
      rw [List.sublist_nil.1 h]
      exact List.nil_sublist _
    · rw [List.intercalate_cons_of_ne_nil hne]
      exact ih.trans (List.sublist_append_right _ _)
  | @cons_cons l l' first h ih =>
    by_cases hne' : l' = []
    · subst hne'
      rw [List.sublist_nil.1 h]
    · rw [List.intercalate_cons_of_ne_nil hne']
      by_cases hne : l = []
      · subst hne
        rw [List.intercalate_singleton, List.append_assoc]
        exact List.sublist_append_left _ _
      · rw [List.intercalate_cons_of_ne_nil hne]
        exact List.Sublist.append (List.Sublist.refl _) ih

/-- Part of a text is not longer than the text. -/
theorem utf8ByteSize_ofList_le {l l' : List Char} (h : l.Sublist l') :
    (String.ofList l).utf8ByteSize ≤ (String.ofList l').utf8ByteSize := by
  induction h with
  | slnil => exact Nat.le_refl _
  | cons c _ ih =>
    rw [String.ofList_cons, String.utf8ByteSize_append]
    exact Nat.le_trans ih (Nat.le_add_left _ _)
  | cons_cons c _ ih =>
    rw [String.ofList_cons, String.ofList_cons, String.utf8ByteSize_append,
      String.utf8ByteSize_append]
    exact Nat.add_le_add_left ih _

end Text

namespace Path

/-- Folding steps only leaves out some of them. -/
theorem foldl_push_sublist (ss stack : List Step) :
    (ss.foldl push stack).reverse.Sublist (stack.reverse ++ ss) := by
  induction ss generalizing stack with
  | nil =>
    rw [List.append_nil]
    exact List.Sublist.refl _
  | cons s ss ih =>
    have hstep : (push stack s).reverse.Sublist (stack.reverse ++ [s]) := by
      cases s with
      | into name => rw [push_into, List.reverse_cons]
      | up =>
        cases stack with
        | nil => exact List.Sublist.refl _
        | cons top stack =>
          rw [List.reverse_cons, List.append_assoc]
          exact List.sublist_append_left _ _
    have hrest := (ih (push stack s)).trans (List.Sublist.append hstep (List.Sublist.refl ss))
    rw [List.append_assoc] at hrest
    exact hrest

/-- Folding adds no step. -/
theorem foldSteps_sublist (ss : List Step) : (foldSteps ss).Sublist ss :=
  foldl_push_sublist ss []

/-- The text of a step is the part from which it is read. -/
theorem Step.text_of_ofPart? {part : String} {s : Step} (h : Step.ofPart? part = some s) :
    s.text = part := by
  unfold Step.ofPart? at h
  split at h
  · cases h
  · split at h
    · rename_i hdots
      cases h
      exact hdots.symm
    · cases h
      rfl

/-- The texts of the steps of a path are among its parts. -/
theorem map_text_steps_sublist (p : Path) : (p.steps.map Step.text).Sublist p.parts := by
  unfold steps
  induction p.parts with
  | nil => exact List.Sublist.refl _
  | cons part parts ih =>
    rw [List.filterMap_cons]
    cases hpart : Step.ofPart? part with
    | none => exact ih.cons part
    | some s =>
      rw [List.map_cons, Step.text_of_ofPart? hpart]
      exact ih.cons_cons part

/-- A separator at the start adds no step. -/
theorem steps_separator_append (text : String) :
    (Path.mk ("/" ++ text)).steps = (Path.mk text).steps := by
  rw [steps, parts_separator_append]
  exact List.filterMap_cons_none (by decide)

/-- Cleaning only takes characters away. -/
theorem text_clean_sublist (p : Path) : p.clean.text.toList.Sublist p.text.toList := by
  have hrelative (q : Path) :
      ("/".intercalate ((foldSteps q.steps).map Step.text)).toList.Sublist q.text.toList := by
    have hparts := ((foldSteps_sublist q.steps).map Step.text).trans q.map_text_steps_sublist
    have htexts := Text.intercalate_sublist ['/'] (hparts.map String.toList)
    have hwhole : ['/'].intercalate (q.parts.map String.toList) = q.text.toList := by
      simp [parts, Function.comp_def]
    rw [hwhole] at htexts
    rw [String.toList_intercalate]
    exact htexts
  cases habsolute : p.isAbsolute with
  | false => simpa [clean, ofSteps, habsolute] using hrelative p
  | true =>
    obtain ⟨text, rfl⟩ := exists_of_isAbsolute habsolute
    simp only [clean, ofSteps, habsolute, if_true, steps_separator_append, String.toList_append]
    exact List.Sublist.append (List.Sublist.refl _) (hrelative ⟨text⟩)

/-- Cleaning makes no path longer. -/
theorem utf8ByteSize_clean_le (p : Path) : p.clean.text.utf8ByteSize ≤ p.text.utf8ByteSize := by
  have hsize := Text.utf8ByteSize_ofList_le p.text_clean_sublist
  rw [String.ofList_toList, String.ofList_toList] at hsize
  exact hsize

end Path

end Preflight

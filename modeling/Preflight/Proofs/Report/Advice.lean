import Preflight.Proofs.Diagnostic.Errors
import Preflight.Proofs.Diagnostic.Places
import Preflight.Proofs.Report.Joins

/-!
# Complaints and the advice for them

Advice is kept under a phrase and given if the phrase occurs in the message of an error.
A message is put together from fixed parts and from names, paths and numbers; a phrase
that occurs in one of the fixed parts occurs in the message whatever the others are
(`occurs_append_left`, `occurs_append_right`). An outcome that has an error with such a
message still has it as a part of larger outcomes (`Outcome.Complains`), and a report
with this outcome in a section gives the advice (`Report.advises_of_complains`).
-/

set_option autoImplicit false

namespace Preflight

namespace Text

/-- A part occurs in a text if the text is that part with something before and after it. -/
theorem occurs_iff_isInfixOf (part s : List Char) : occurs part s = true ↔ part <:+: s := by
  induction s with
  | nil => simp [occurs]
  | cons c s ih => rw [occurs, Bool.or_eq_true, ih, List.isPrefixOf_iff_prefix, List.infix_cons_iff]

/-- What occurs in a text occurs in it with more at its end. -/
theorem occurs_append_left {part : List Char} {a : String} (h : occurs part a.toList = true)
    (b : String) : occurs part (a ++ b).toList = true := by
  rw [occurs_iff_isInfixOf] at h ⊢
  rw [String.toList_append]
  exact h.trans (List.prefix_append _ _).isInfix

/-- What occurs in a text occurs in it with more at its start. -/
theorem occurs_append_right {part : List Char} {b : String} (a : String)
    (h : occurs part b.toList = true) : occurs part (a ++ b).toList = true := by
  rw [occurs_iff_isInfixOf] at h ⊢
  rw [String.toList_append]
  exact h.trans (List.suffix_append _ _).isInfix

end Text

open Text (occurs)

namespace Outcome

/-- There is an error in whose message the phrase occurs. -/
def Complains (o : Outcome) (phrase : String) : Prop :=
  ∃ d ∈ o.diagnostics, d.isError = true ∧ occurs phrase.toList d.message.toList = true

variable {phrase : String}

/-- An error with a phrase in its message complains by this phrase. -/
theorem complains_single {kind : IssueKind} {message : String} {l : Location}
    (h : occurs phrase.toList message.toList = true) :
    (single (.error kind message l)).Complains phrase :=
  ⟨_, List.mem_singleton_self _, rfl, h⟩

/-- An error that is found, with a phrase in its message, complains by this phrase. -/
theorem complains_ofOption {kind : IssueKind} {message : String} {l : Location}
    {issue : Option Diagnostic} (hissue : issue = some (.error kind message l))
    (h : occurs phrase.toList message.toList = true) : (ofOption issue).Complains phrase :=
  ⟨_, Option.mem_toList.2 hissue, rfl, h⟩

/-- An outcome with the diagnostics of another one complains as the other does. -/
theorem Complains.mono {a b : Outcome} (h : a.Complains phrase)
    (hsubset : ∀ d ∈ a.diagnostics, d ∈ b.diagnostics) : b.Complains phrase := by
  obtain ⟨d, hd, herror⟩ := h
  exact ⟨d, hsubset d hd, herror⟩

/-- An outcome complains as before with another one after it. -/
theorem Complains.append_left {a : Outcome} (h : a.Complains phrase) (b : Outcome) :
    (a ++ b).Complains phrase :=
  h.mono fun _ hd => List.mem_append_left _ hd

/-- An outcome complains as before with another one ahead of it. -/
theorem Complains.append_right {b : Outcome} (a : Outcome) (h : b.Complains phrase) :
    (a ++ b).Complains phrase :=
  h.mono fun _ hd => List.mem_append_right _ hd

/-- Outcomes one after the other complain as each of them does. -/
theorem Complains.concat {o : Outcome} {outcomes : List Outcome} (ho : o ∈ outcomes)
    (h : o.Complains phrase) : (concat outcomes).Complains phrase :=
  h.mono fun _ hd => List.mem_flatMap_of_mem ho hd

/-- A check of each element of a list complains if it complains of one element, wherever this stands. -/
theorem complains_concat_zipIdx {α : Type} {l : List α} {a : α} (ha : a ∈ l)
    (check : α → Nat → Outcome) (h : ∀ i, (check a i).Complains phrase) :
    (Outcome.concat (l.zipIdx.map fun e => check e.1 e.2)).Complains phrase := by
  obtain ⟨i, hget⟩ := List.mem_iff_getElem?.1 ha
  exact (h i).mono fun _ hd => mem_concat_zipIdx check hget hd

end Outcome

namespace Report

/-- The report gives the advice that is kept under a phrase. -/
def Advises (r : Report) (phrase : String) : Prop :=
  ∃ a ∈ Advice.table, a.phrase = phrase ∧ a.text ∈ r.remediations

/-- A report whose sections complain by the phrase of an advice gives this advice. -/
theorem advises_of_complains {r : Report} {s : Section} {phrase : String} (hs : s ∈ r.sections)
    (h : s.outcome.Complains phrase) (hphrase : phrase ∈ Advice.table.map Advice.phrase) :
    r.Advises phrase := by
  obtain ⟨a, ha, rfl⟩ := List.mem_map.1 hphrase
  obtain ⟨d, hd, herror, hoccurs⟩ := h
  have hmem : d ∈ r.outcome.errors :=
    List.mem_filter.2 ⟨List.mem_flatMap_of_mem (List.mem_map_of_mem hs) hd, herror⟩
  exact ⟨a, ha, rfl, (text_mem_remediations_iff ha r).2 (List.any_eq_true.2 ⟨d, hmem, hoccurs⟩)⟩

end Report

end Preflight

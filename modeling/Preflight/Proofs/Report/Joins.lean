import Mathlib.Data.List.Nodup
import Preflight.Report.Basic

/-!
# Reports put together from two

Totals and advice of a report are read off its sections. So if the sections of a
report are those of two others, one after the other, and what is counted beside
the sections is added up, its totals are the sums of theirs, it passes if both of
them do, and it gives the advice that one of them gives (`joins_of_sections`).
-/

set_option autoImplicit false

namespace Preflight

/-- The texts of two pieces of advice differ. -/
theorem Advice.eq_of_text_eq {a b : Advice} (ha : a ∈ Advice.table) (hb : b ∈ Advice.table)
    (h : a.text = b.text) : a = b := by
  have hnodup : (Advice.table.map Advice.text).Nodup := by decide +kernel
  exact List.inj_on_of_nodup_map hnodup ha hb h

namespace Report

/-- An advice is given exactly if it applies to an error of the report. -/
theorem text_mem_remediations_iff {a : Advice} (ha : a ∈ Advice.table) (r : Report) :
    a.text ∈ r.remediations ↔ r.outcome.errors.any a.appliesTo = true := by
  unfold remediations
  constructor
  · intro h
    obtain ⟨b, hb, htext⟩ := List.mem_map.1 h
    obtain ⟨hbtable, happlies⟩ := List.mem_filter.1 hb
    rwa [Advice.eq_of_text_eq ha hbtable htext.symm]
  · intro h
    exact List.mem_map_of_mem (List.mem_filter.2 ⟨ha, h⟩)

/-- A report is put together from two others: it has the sections of the first and then those of the
second, its totals are the sums of theirs, it passes if both pass, and its advice is all that one of
them gives, in the order of the table. -/
structure Joins (whole first second : Report) : Prop where
  sections : whole.sections = first.sections ++ second.sections
  sources : whole.summary.sources = first.summary.sources + second.summary.sources
  descriptors : whole.summary.descriptors = first.summary.descriptors + second.summary.descriptors
  hookEntries : whole.summary.hookEntries = first.summary.hookEntries + second.summary.hookEntries
  errors : whole.summary.errors = first.summary.errors + second.summary.errors
  warnings : whole.summary.warnings = first.summary.warnings + second.summary.warnings
  passed : whole.summary.passed = (first.summary.passed && second.summary.passed)
  remediations : whole.remediations = (Advice.table.map Advice.text).filter fun text =>
    text ∈ first.remediations ∨ text ∈ second.remediations

variable {whole first second : Report}

/-- The outcome of joined sections is that of the one and then that of the other report. -/
theorem outcome_of_sections (h : whole.sections = first.sections ++ second.sections) :
    whole.outcome = first.outcome ++ second.outcome := by
  unfold outcome Outcome.concat
  rw [h, List.map_append, List.flatMap_append]
  rfl

/-- A report with the sections of two, and with the sums of their counts, joins them. -/
theorem joins_of_sections (hsections : whole.sections = first.sections ++ second.sections)
    (hdescriptors : whole.descriptors = first.descriptors + second.descriptors)
    (hentries : whole.hookEntries = first.hookEntries + second.hookEntries) :
    whole.Joins first second := by
  have houtcome := outcome_of_sections hsections
  have herrors : whole.outcome.errors = first.outcome.errors ++ second.outcome.errors := by
    rw [houtcome]
    exact List.filter_append ..
  have hwarnings : whole.outcome.warnings = first.outcome.warnings ++ second.outcome.warnings := by
    rw [houtcome]
    exact List.filter_append ..
  refine ⟨hsections, ?_, hdescriptors, hentries, ?_, ?_, ?_, ?_⟩
  · simp only [summary, hsections, List.filter_append, List.length_append]
  · simp only [summary, Outcome.errorCount, herrors, List.length_append]
  · simp only [summary, Outcome.warningCount, hwarnings, List.length_append]
  · simp [summary, houtcome, Outcome.hasErrors]
  · rw [remediations, List.filter_map]
    congr 1
    apply List.filter_congr
    intro a ha
    have hfirst := text_mem_remediations_iff ha first
    have hsecond := text_mem_remediations_iff ha second
    rw [Bool.eq_iff_iff]
    simp only [herrors, List.any_append, Bool.or_eq_true, Function.comp_apply, decide_eq_true_eq,
      hfirst, hsecond]

end Report

end Preflight

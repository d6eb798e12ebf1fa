import Mathlib.Data.List.Nodup
import Preflight.Diagnostic.Outcome

/-!
# Diagnostics that stand together

The diagnostics of a list are grouped if those with the same scope stand next to each
other, whatever the scope. Checks of things with different names that speak about the
things by name are grouped (`areGrouped_concat_map`), and diagnostics stay grouped if
some of them are left out.
-/

set_option autoImplicit false

namespace Preflight.Diagnostic

/-- The diagnostics with a scope follow each other, with no others between them. -/
def FormBlock (scope : String) (diagnostics : List Diagnostic) : Prop :=
  ∃ before block after, diagnostics = before ++ block ++ after ∧
    (∀ d ∈ block, d.location.scope = some scope) ∧
    (∀ d ∈ before, d.location.scope ≠ some scope) ∧ ∀ d ∈ after, d.location.scope ≠ some scope

/-- The diagnostics with the same scope stand next to each other. -/
def AreGrouped (diagnostics : List Diagnostic) : Prop :=
  ∀ scope, FormBlock scope diagnostics

/-- Diagnostics with one scope are one group. -/
theorem areGrouped_of_scope_eq {diagnostics : List Diagnostic} (scope : Option String)
    (h : ∀ d ∈ diagnostics, d.location.scope = scope) : AreGrouped diagnostics := by
  intro name
  by_cases hname : scope = some name
  · exact ⟨[], diagnostics, [], by simp, fun d hd => (h d hd).trans hname, by simp, by simp⟩
  · refine ⟨diagnostics, [], [], by simp, by simp, ?_, by simp⟩
    intro d hd
    rw [h d hd]
    exact hname

/-- Leaving out diagnostics keeps the others grouped. -/
theorem areGrouped_filter {diagnostics : List Diagnostic} (h : AreGrouped diagnostics)
    (p : Diagnostic → Bool) : AreGrouped (diagnostics.filter p) := by
  intro scope
  obtain ⟨before, block, after, rfl, hblock, hbefore, hafter⟩ := h scope
  refine ⟨before.filter p, block.filter p, after.filter p, ?_, ?_, ?_, ?_⟩
  · rw [List.filter_append, List.filter_append]
  · exact fun d hd => hblock d (List.mem_filter.1 hd).1
  · exact fun d hd => hbefore d (List.mem_filter.1 hd).1
  · exact fun d hd => hafter d (List.mem_filter.1 hd).1

/-- Diagnostics without a scope do no harm at the end. -/
theorem areGrouped_append {diagnostics rest : List Diagnostic} (h : AreGrouped diagnostics)
    (hrest : ∀ d ∈ rest, d.location.scope = none) : AreGrouped (diagnostics ++ rest) := by
  intro scope
  obtain ⟨before, block, after, rfl, hblock, hbefore, hafter⟩ := h scope
  refine ⟨before, block, after ++ rest, by simp, hblock, hbefore, ?_⟩
  intro d hd
  rcases List.mem_append.1 hd with hd | hd
  · exact hafter d hd
  · simp [hrest d hd]

/-- Checks of things with different names are grouped by the names. -/
theorem areGrouped_concat_map {α : Type} {l : List α} {check : α → Outcome} (name : α → String)
    (hnames : (l.map name).Nodup)
    (hscope : ∀ a ∈ l, ∀ d ∈ (check a).diagnostics, d.location.scope = some (name a)) :
    AreGrouped (Outcome.concat (l.map check)).diagnostics := by
  intro scope
  have hother : ∀ m : List α, (∀ a ∈ m, a ∈ l ∧ name a ≠ scope) →
      ∀ d ∈ (Outcome.concat (m.map check)).diagnostics, d.location.scope ≠ some scope := by
    intro m hm d hd heq
    obtain ⟨o, ho, hdo⟩ := List.mem_flatMap.1 hd
    obtain ⟨a, ha, rfl⟩ := List.mem_map.1 ho
    obtain ⟨hal, hne⟩ := hm a ha
    exact hne (Option.some.inj ((hscope a hal d hdo).symm.trans heq))
  by_cases hmem : scope ∈ l.map name
  · obtain ⟨a, ha, rfl⟩ := List.mem_map.1 hmem
    obtain ⟨before, after, rfl⟩ := List.mem_iff_append.1 ha
    rw [List.map_append, List.map_cons] at hnames
    obtain ⟨-, hafter, hbefore⟩ := List.nodup_append.1 hnames
    refine ⟨(Outcome.concat (before.map check)).diagnostics, (check a).diagnostics,
      (Outcome.concat (after.map check)).diagnostics, ?_, hscope a ha, ?_, ?_⟩
    · simp [Outcome.concat]
    · refine hother before fun b hb => ⟨List.mem_append_left _ hb, ?_⟩
      exact hbefore _ (List.mem_map_of_mem hb) _ List.mem_cons_self
    · refine hother after fun b hb => ⟨by simp [hb], ?_⟩
      intro heq
      exact (List.nodup_cons.1 hafter).1 (heq ▸ List.mem_map_of_mem hb)
  · refine ⟨_, [], [], by simp, by simp, hother l ?_, by simp⟩
    intro a ha
    exact ⟨ha, fun heq => hmem (heq ▸ List.mem_map_of_mem ha)⟩

end Preflight.Diagnostic

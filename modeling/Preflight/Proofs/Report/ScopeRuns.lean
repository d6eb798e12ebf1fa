import Preflight.Proofs.Report.OneLine

/-!
# A section in plain text

The visible diagnostics of a section fall into runs: neighbours with one scope, or without
one, as many as there are. A list is cut into such runs in exactly one way
(`AreRuns.eq_splitBy`), although a section is written diagnostic by diagnostic and knows of
those before only the last scope. Without colours a run is its scope as a heading and a line
for each of its diagnostics, and a section is its title and its runs (`render_plain`). What
is visible depends on the severity only where the source was checked.
-/

set_option autoImplicit false

namespace Preflight.Section

open Preflight.Text (unlines)

/-- Some diagnostics cut into the longest runs of neighbours with one scope, or without one. -/
structure AreRuns (diagnostics : List Diagnostic) (runs : List (List Diagnostic)) : Prop where
  flatten_eq : runs.flatten = diagnostics
  ne_nil : ∀ run ∈ runs, run ≠ []
  scope_eq : ∀ run ∈ runs, ∀ d ∈ run, ∀ e ∈ run, d.location.scope = e.location.scope
  scope_ne : runs.IsChain fun run next => ∀ d ∈ run, ∀ e ∈ next, d.location.scope ≠ e.location.scope

/-! ### There is one way to cut -/

/-- Splitting diagnostics where the scope changes gives their runs. -/
theorem areRuns_splitBy (diagnostics : List Diagnostic) :
    AreRuns diagnostics (diagnostics.splitBy shareScope) := by
  refine ⟨List.flatten_splitBy _ _, fun run hrun => List.ne_nil_of_mem_splitBy hrun, ?_, ?_⟩
  · intro run hrun d hd e he
    rw [scope_eq_of_mem_splitBy hrun hd, scope_eq_of_mem_splitBy hrun he]
  · refine (List.isChain_getLast_head_splitBy _ _).imp_of_mem_imp ?_
    rintro run next hrun hnext ⟨hlast, hhead, hne⟩ d hd e he heq
    -- the scopes of two runs are those of the last diagnostic of one and the first of the other
    rw [shareScope, beq_eq_false_iff_ne, scope_eq_of_mem_splitBy hrun (List.getLast_mem hlast),
      scope_eq_of_mem_splitBy hnext (List.head_mem hhead)] at hne
    apply hne
    rw [← scope_eq_of_mem_splitBy hrun hd, heq, scope_eq_of_mem_splitBy hnext he]

/-- Diagnostics have no other runs than those between the changes of scope. -/
theorem AreRuns.eq_splitBy {diagnostics : List Diagnostic} {runs : List (List Diagnostic)}
    (h : AreRuns diagnostics runs) : runs = diagnostics.splitBy shareScope := by
  have hnonempty : [] ∉ runs := fun hnil => h.ne_nil [] hnil rfl
  have halike : ∀ run ∈ runs, run.IsChain fun d e => shareScope d e = true := by
    intro run hrun
    refine (List.pairwise_of_forall_mem_list fun d hd e he => ?_).isChain
    exact beq_iff_eq.2 (h.scope_eq run hrun d hd e he)
  have hchanges : runs.IsChain fun a b => ∃ ha hb, shareScope (a.getLast ha) (b.head hb) = false := by
    refine h.scope_ne.imp_of_mem_imp fun run next hrun hnext hne => ?_
    refine ⟨h.ne_nil run hrun, h.ne_nil next hnext, beq_eq_false_iff_ne.2 ?_⟩
    exact hne _ (List.getLast_mem _) _ (List.head_mem _)
  exact (List.splitBy_eq_iff.2 ⟨h.flatten_eq.symm, hnonempty, halike, hchanges⟩).symm

/-! ### What is visible -/

section

variable (s : Section)

/-- Errors and warnings are always visible. -/
theorem filter_visible (verbose : Bool) :
    (s.visible verbose).filter (·.severity != .info) =
      s.outcome.diagnostics.filter (·.severity != .info) := by
  rw [visible, List.filter_filter]
  refine List.filter_congr fun d _ => ?_
  cases d.severity <;> simp

/-- A section that was not checked shows all its diagnostics. -/
theorem visible_of_not_checked (h : s.checked = false) (verbose : Bool) :
    s.visible verbose = s.outcome.diagnostics := by
  rw [visible, List.filter_eq_self]
  intro d _
  simp [h]

end

/-! ### Sections without colours -/

/-- The line of a diagnostic without colours: four columns deep below a heading, else two. -/
def plainRow (s : Section) (d : Diagnostic) : String :=
  (if d.location.scope.isSome then "    " else "  ") ++ (s.statusOf d).icon ++ " " ++ d.issueLine

/-- The lines of a run without colours: its scope as a heading, if it has one, and a line for each
diagnostic. -/
def plainRunRows (s : Section) (run : List Diagnostic) : List String :=
  (scopeOf? run).toList.map ("  " ++ ·) ++ run.map s.plainRow

/-- Without colours the rows of a run are the plain ones. -/
theorem runRows_plain (columns : Nat) {s : Section} {l run : List Diagnostic}
    (hrun : run ∈ l.splitBy shareScope) :
    s.runRows ⟨columns, false⟩ run = s.plainRunRows run := by
  have hissues : run.map (s.issueRow ⟨columns, false⟩ (scopeOf? run)) = run.map s.plainRow := by
    refine List.map_congr_left fun d hd => ?_
    rw [issueRow, plainRow, scope_eq_of_mem_splitBy hrun hd]
    cases scopeOf? run <;> rfl
  rw [runRows, plainRunRows, hissues]
  cases scopeOf? run <;> rfl

/-- **A section is written run by run.** Without colours the lines of a section are its title and one more
if nothing is visible, and else the runs of its visible diagnostics, each with its scope as a heading and a
line for each of its diagnostics. Errors and warnings are visible, and in a section that was not checked all
diagnostics are; what is visible keeps its order. -/
theorem render_plain (columns : Nat) (verbose : Bool) (s : Section) :
    (∃ runs, AreRuns (s.visible verbose) runs ∧
      (∀ others, AreRuns (s.visible verbose) others → others = runs) ∧
      s.render ⟨columns, false⟩ verbose =
        unlines ("" :: s.fullTitle ::
          if s.visible verbose = [] then ["  ✅ no issues"] else runs.flatMap s.plainRunRows)) ∧
    (s.visible verbose).Sublist s.outcome.diagnostics ∧
    (s.visible verbose).filter (·.severity != .info) =
      s.outcome.diagnostics.filter (·.severity != .info) ∧
    (s.checked = false → s.visible verbose = s.outcome.diagnostics) := by
  refine ⟨⟨s.runs verbose, areRuns_splitBy _, fun others h => h.eq_splitBy, ?_⟩,
    List.filter_sublist, s.filter_visible verbose, fun h => s.visible_of_not_checked h verbose⟩
  have hempty : s.runs verbose = [] ↔ s.visible verbose = [] := List.splitBy_eq_nil
  have hruns : (s.runs verbose).flatMap (s.runRows ⟨columns, false⟩) =
      (s.runs verbose).flatMap s.plainRunRows :=
    List.flatMap_congr fun run hrun => runRows_plain columns hrun
  rw [render_eq_unlines, rows, issueRows, hruns]
  simp only [hempty]
  rfl

/-- A section with a note between two diagnostics of one scope, and after them one without a scope, the
first scope again and another. -/
def mixed : Section :=
  let place := Location.ofSource "project"
  { title := "hooks: project"
    path := some ⟨"/p/s.json"⟩
    checked := true
    outcome := ⟨[.error .range "a" (place.inScope "Stop"), .info "b" (place.inScope "Stop"),
      .warning .syntactic "c" ((place.inScope "Stop").atField "matcher"), .warning .schema "d" place,
      .error .schema "e" (place.inScope "Stop"), .error .schema "f" (place.inScope "stop")]⟩ }

/-- The runs of this section. The hidden note ends none of them, the diagnostic without a scope does. -/
def mixedRuns : List (List Diagnostic) :=
  let place := Location.ofSource "project"
  [[.error .range "a" (place.inScope "Stop"),
      .warning .syntactic "c" ((place.inScope "Stop").atField "matcher")],
    [.warning .schema "d" place], [.error .schema "e" (place.inScope "Stop")],
    [.error .schema "f" (place.inScope "stop")]]

/-- A section with a scope that comes back, one that differs in case and a diagnostic without one. -/
theorem render_plain_of_mixed :
    AreRuns (mixed.visible false) mixedRuns ∧
      mixed.render ⟨80, false⟩ false =
        unlines ["", "hooks: project (/p/s.json)", "  Stop", "    ❌ error [range] a",
          "    ⚠️ warning [syntax] matcher: c", "  ⚠️ warning [schema] d", "  Stop",
          "    ❌ error [schema] e", "  stop", "    ❌ error [schema] f"] := by
  have hmixed : AreRuns (mixed.visible false) mixedRuns := ⟨rfl, by decide, by decide, by decide⟩
  obtain ⟨⟨runs, -, hunique, hrender⟩, -⟩ := render_plain 80 false mixed
  rw [hrender, ← hunique mixedRuns hmixed]
  exact ⟨hmixed, by decide +kernel⟩

end Preflight.Section

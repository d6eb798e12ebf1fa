import Mathlib.Data.List.SplitBy
import Preflight.Proofs.Diagnostic.Blocks
import Preflight.Report.Render

/-!
# The headings of a report

A section is written run by run: the visible diagnostics are cut into the longest runs
of neighbours with one scope, and each run is written as a heading, if it has a scope,
and a line for each of its diagnostics (`render_eq`). The scopes of the runs are thus
the headings of the section. No heading is repeated if the diagnostics of the section
are grouped, no matter which of them are visible (`nodup_headings`).
-/

set_option autoImplicit false

namespace Preflight.Section

open Preflight.Diagnostic (AreGrouped FormBlock)

/-! ### Runs of neighbours -/

/-- Whether two diagnostics have the same scope. -/
def shareScope (d e : Diagnostic) : Bool :=
  d.location.scope == e.location.scope

/-- The scope of the first of some diagnostics. -/
def scopeOf? (run : List Diagnostic) : Option String :=
  run.head?.bind (·.location.scope)

/-- The visible diagnostics, cut where the scope changes. -/
def runs (s : Section) (verbose : Bool) : List (List Diagnostic) :=
  (s.visible verbose).splitBy shareScope

/-- The headings over the runs of a section. -/
def headings (s : Section) (verbose : Bool) : List String :=
  (s.runs verbose).filterMap scopeOf?

/-- A diagnostic below the heading of a scope, if there is one. -/
def renderLine (t : Terminal) (s : Section) (scope : Option String) (d : Diagnostic) : String :=
  t.statusLine (if scope.isSome then 4 else 2) d.issueLine (s.statusOf d)

/-- A run with the heading over it. -/
def renderRun (t : Terminal) (s : Section) (run : List Diagnostic) : String :=
  (scopeOf? run).elim "" (t.heading 2) ++ String.join (run.map (s.renderLine t (scopeOf? run)))

/-- A section, run by run. -/
def renderRuns (t : Terminal) (verbose : Bool) (s : Section) : String :=
  t.sectionTitle s.fullTitle ++
    if s.runs verbose = [] then t.statusLine 2 "no issues" .pass
    else String.join ((s.runs verbose).map (s.renderRun t))

variable {t : Terminal} {s : Section}

/-! ### Sections are written run by run -/

/-- All diagnostics of a run have the scope of its first one. -/
theorem scope_eq_of_mem_run {d e : Diagnostic} {run : List Diagnostic}
    (h : (d :: run).IsChain fun d e => shareScope d e = true) (he : e ∈ run) :
    e.location.scope = d.location.scope := by
  induction run generalizing d with
  | nil => cases he
  | cons first run ih =>
    obtain ⟨hfirst, hrun⟩ := List.isChain_cons_cons.1 h
    have hscope : first.location.scope = d.location.scope := (beq_iff_eq.1 hfirst).symm
    rcases List.mem_cons.1 he with rfl | he
    · exact hscope
    · exact (ih hrun he).trans hscope

/-- Each diagnostic of a run has the scope of the run. -/
theorem scope_eq_of_mem_splitBy {l run : List Diagnostic} (hrun : run ∈ l.splitBy shareScope)
    {d : Diagnostic} (hd : d ∈ run) : d.location.scope = scopeOf? run := by
  cases run with
  | nil => cases hd
  | cons first run =>
    rcases List.mem_cons.1 hd with rfl | hd
    · rfl
    · exact scope_eq_of_mem_run (List.isChain_of_mem_splitBy hrun) hd

/-- No heading stands between diagnostics with the scope of those before them. -/
theorem renderFrom_append {scope : Option String} {run : List Diagnostic}
    (h : ∀ d ∈ run, d.location.scope = scope) (rest : List Diagnostic) :
    renderFrom t s scope (run ++ rest) =
      String.join (run.map (s.renderLine t scope)) ++ renderFrom t s scope rest := by
  induction run with
  | nil => simp
  | cons d run ih =>
    have hscope := h d List.mem_cons_self
    have hrest := ih fun e he => h e (List.mem_cons_of_mem d he)
    cases scope <;>
      simp [renderFrom, renderLine, hscope, hrest, String.append_assoc]

/-- A heading stands over a run that follows another scope. -/
theorem renderFrom_run {previous : Option String} {d : Diagnostic} {run : List Diagnostic}
    (hrun : ∀ e ∈ run, e.location.scope = d.location.scope)
    (hprevious : previous = d.location.scope → previous = none) (rest : List Diagnostic) :
    renderFrom t s previous (d :: run ++ rest) =
      s.renderRun t (d :: run) ++ renderFrom t s d.location.scope rest := by
  have happend := renderFrom_append (t := t) (s := s) hrun rest
  unfold renderRun scopeOf?
  rw [List.cons_append, renderFrom, happend]
  cases hscope : d.location.scope with
  | none => simp [renderLine, hscope, String.append_assoc]
  | some name =>
    have hne : previous ≠ some name := by
      intro heq
      cases heq.symm.trans (hprevious (heq.trans hscope.symm))
    simp [renderLine, hscope, hne, String.append_assoc]

/-- The diagnostics of runs whose scopes change from one to the next are written run by run. -/
theorem renderFrom_flatten {previous : Option String} {runs : List (List Diagnostic)}
    (hnonempty : [] ∉ runs)
    (hruns : ∀ run ∈ runs, run.IsChain fun d e => shareScope d e = true)
    (hchanges : runs.IsChain fun a b => ∃ ha hb, shareScope (a.getLast ha) (b.head hb) = false)
    (hprevious : ∀ run ∈ runs.head?, ∀ d ∈ run.head?,
      previous = d.location.scope → previous = none) :
    renderFrom t s previous runs.flatten = String.join (runs.map (s.renderRun t)) := by
  induction runs generalizing previous with
  | nil => simp [renderFrom]
  | cons run runs ih =>
    cases run with
    | nil => exact absurd List.mem_cons_self hnonempty
    | cons d run =>
      have hscope : ∀ e ∈ run, e.location.scope = d.location.scope :=
        fun e he => scope_eq_of_mem_run (hruns _ List.mem_cons_self) he
      have hrest := @ih d.location.scope
        (fun h => hnonempty (List.mem_cons_of_mem _ h))
        (fun r hr => hruns r (List.mem_cons_of_mem _ hr)) hchanges.tail (by
          intro next hnext e he heq
          obtain ⟨hlast, hhead, hne⟩ := (List.isChain_cons.1 hchanges).1 next hnext
          have hlastscope : ((d :: run).getLast hlast).location.scope = d.location.scope := by
            rcases List.mem_cons.1 (List.getLast_mem hlast) with h | h
            · rw [h]
            · exact hscope _ h
          have hfirst : next.head hhead = e := List.head_of_mem_head? he
          rw [shareScope, hlastscope, hfirst] at hne
          simp [heq] at hne)
      rw [List.flatten_cons, renderFrom_run hscope (hprevious _ rfl d rfl), hrest, List.map_cons,
        String.join_cons]

/-- A section is rendered run by run. -/
theorem render_eq (t : Terminal) (verbose : Bool) (s : Section) :
    s.render t verbose = s.renderRuns t verbose := by
  have hlines : renderFrom t s none (s.visible verbose) =
      String.join ((s.runs verbose).map (s.renderRun t)) := by
    conv_lhs => rw [← List.flatten_splitBy shareScope (s.visible verbose)]
    exact renderFrom_flatten (List.nil_notMem_splitBy _ _)
      (fun _ => List.isChain_of_mem_splitBy) (List.isChain_getLast_head_splitBy _ _)
      fun _ _ _ _ _ => rfl
  unfold render renderRuns
  cases hvisible : s.visible verbose with
  | nil => simp [runs, hvisible]
  | cons d rest =>
    have hruns : s.runs verbose ≠ [] := by
      rw [runs, hvisible]
      exact List.splitBy_ne_nil.2 (List.cons_ne_nil d rest)
    rw [if_neg hruns, ← hlines, hvisible]

/-! ### Headings of grouped diagnostics -/

/-- A scope that no diagnostic has is no heading. -/
theorem count_headings_of_forall_ne {l : List Diagnostic} {scope : String}
    (h : ∀ d ∈ l, d.location.scope ≠ some scope) :
    ((l.splitBy shareScope).filterMap scopeOf?).count scope = 0 := by
  rw [List.count_eq_zero]
  intro hmem
  obtain ⟨run, hrun, hscope⟩ := List.mem_filterMap.1 hmem
  obtain ⟨d, hd, hname⟩ := Option.bind_eq_some_iff.1 hscope
  have hdl : d ∈ l := by
    rw [← List.flatten_splitBy shareScope l]
    exact List.mem_flatten_of_mem hrun (List.mem_of_mem_head? hd)
  exact h d hdl hname

/-- A block between diagnostics of other scopes is one run. -/
theorem count_headings_le_one {l : List Diagnostic} {scope : String} (h : FormBlock scope l) :
    ((l.splitBy shareScope).filterMap scopeOf?).count scope ≤ 1 := by
  obtain ⟨before, block, after, rfl, hblock, hbefore, hafter⟩ := h
  cases block with
  | nil =>
    rw [count_headings_of_forall_ne]
    · exact Nat.zero_le 1
    · intro d hd
      rcases List.mem_append.1 hd with hd | hd
      · exact hbefore d (by simpa using hd)
      · exact hafter d hd
  | cons d block =>
    have hrun : (d :: block).splitBy shareScope = [d :: block] := by
      apply List.splitBy_of_isChain (List.cons_ne_nil d block)
      refine (List.pairwise_of_forall_mem_list fun x hx y hy => ?_).isChain
      rw [shareScope, hblock x hx, hblock y hy, beq_self_eq_true]
    have hstart : ∀ x ∈ before.getLast?, ∀ y ∈ (d :: block).head?, shareScope x y = false := by
      intro x hx y hy
      rw [shareScope, hblock y (List.mem_of_mem_head? hy), beq_eq_false_iff_ne]
      exact hbefore x (List.mem_of_mem_getLast? hx)
    have hend : ∀ x ∈ (before ++ d :: block).getLast?, ∀ y ∈ after.head?, shareScope x y = false := by
      intro x hx y hy
      rw [List.getLast?_append_of_ne_nil _ (List.cons_ne_nil d block)] at hx
      rw [shareScope, hblock x (List.mem_of_mem_getLast? hx), beq_eq_false_iff_ne]
      exact (hafter y (List.mem_of_mem_head? hy)).symm
    rw [List.splitBy_append hend, List.splitBy_append hstart, hrun, List.filterMap_append,
      List.filterMap_append, List.count_append, List.count_append,
      count_headings_of_forall_ne hbefore, count_headings_of_forall_ne hafter, Nat.zero_add,
      Nat.add_zero]
    exact List.count_le_length.trans (List.length_filterMap_le _ _)

/-- If the diagnostics of a section are grouped, each heading stands in it at most once. -/
theorem nodup_headings (h : AreGrouped s.outcome.diagnostics) (verbose : Bool) :
    (s.headings verbose).Nodup := by
  rw [List.nodup_iff_count_le_one]
  intro scope
  exact count_headings_le_one (Diagnostic.areGrouped_filter h _ scope)

end Preflight.Section

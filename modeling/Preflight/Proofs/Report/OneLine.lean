import Preflight.Proofs.Report.Headings
import Preflight.Proofs.Text.OneLine
import Preflight.Proofs.Text.Replacement

/-!
# The lines of a report

A report is written row by row (`Report.render_eq_unlines`): below the title of a section
there is one row for each heading and one for each visible diagnostic
(`Section.length_issueRows`). A row is meant to be a line, but nothing makes it one. The message
of a diagnostic is put on one line before it is shown, the scope and the field are not, and
neither is the path in the title of a section; so the rows are the lines of the report
exactly if these texts have no line feeds (`Report.lines_render_iff`). An error line shows
the message as it is, so there the message counts too (`isOneLine_errorLine_iff`).
-/

set_option autoImplicit false

namespace Preflight

open Preflight.Text

/-! ### Rows for a terminal -/

namespace Terminal

/-- Spaces have no line feed. -/
theorem isOneLine_spaces (n : Nat) : IsOneLine (spaces n) :=
  isOneLine_replicate (by decide) n

/-- A style adds no line feeds and hides none. -/
theorem isOneLine_paint_iff (t : Terminal) {attributes : String} (hattributes : IsOneLine attributes)
    (text : String) : IsOneLine (t.paint attributes text) ↔ IsOneLine text := by
  unfold paint
  split
  · have hstart : '\n' ∉ s!"\x1b[{attributes}m".toList :=
      (isOneLine_append _ _).2 ⟨(isOneLine_append _ _).2 ⟨by decide, hattributes⟩, by decide⟩
    have hreset : '\n' ∉ reset := by decide
    have hcount := @count_replaceAll reset (reset ++ s!"\x1b[{attributes}m".toList) '\n' (by decide)
      (by rw [List.count_append, List.count_eq_zero.2 hstart, Nat.add_zero]) text.toList
    have hreplaced : '\n' ∉ replaceAll reset (reset ++ s!"\x1b[{attributes}m".toList) text.toList ↔
        IsOneLine text := by
      rw [← List.count_eq_zero, hcount, List.count_eq_zero, IsOneLine]
    rw [isOneLine_ofList, List.mem_append, List.mem_append, not_or, not_or, hreplaced]
    exact ⟨fun h => h.1.2, fun h => ⟨⟨hstart, h⟩, hreset⟩⟩
  · rfl

/-- No icon has a line feed. -/
theorem isOneLine_icon (status : Status) : IsOneLine status.icon := by
  cases status <;> decide

/-- No colour has a line feed. -/
theorem isOneLine_colour (status : Status) : IsOneLine status.colour := by
  cases status <;> decide

/-- The rows of a banner. -/
def bannerRows (t : Terminal) (title : String) (status : Status) : List String :=
  [t.paint status.colour (boxTop t.boxWidth),
    t.paint ("1;" ++ status.colour) (boxRow title t.boxWidth),
    t.paint status.colour (boxBottom t.boxWidth)]

/-- A banner is its rows. -/
theorem banner_eq_unlines (t : Terminal) (title : String) (status : Status) :
    t.banner title status = unlines (t.bannerRows title status) := by
  simp [banner, bannerRows, String.append_assoc]

/-- The edge of a banner is one line. -/
theorem isOneLine_edge (width : Nat) : IsOneLine (edge width) :=
  isOneLine_replicate (by decide) (width - 2)

/-- The rows of a banner are one line each if its title is. -/
theorem isOneLine_of_mem_bannerRows (t : Terminal) {title : String} (htitle : IsOneLine title)
    (status : Status) : ∀ row ∈ t.bannerRows title status, IsOneLine row := by
  have hcolour := isOneLine_colour status
  have hbold : IsOneLine ("1;" ++ status.colour) := (isOneLine_append _ _).2 ⟨by decide, hcolour⟩
  have hside : IsOneLine "║" := by decide
  have htop : IsOneLine (boxTop t.boxWidth) := by
    rw [boxTop, isOneLine_append, isOneLine_append]
    exact ⟨⟨by decide, isOneLine_edge _⟩, by decide⟩
  have hbottom : IsOneLine (boxBottom t.boxWidth) := by
    rw [boxBottom, isOneLine_append, isOneLine_append]
    exact ⟨⟨by decide, isOneLine_edge _⟩, by decide⟩
  have hrow : IsOneLine (boxRow title t.boxWidth) := by
    simp only [boxRow, isOneLine_append, isOneLine_spaces, hside, htitle, and_self]
  simp only [bannerRows, List.forall_mem_cons, isOneLine_paint_iff t hcolour,
    isOneLine_paint_iff t hbold, htop, hrow, hbottom, List.not_mem_nil, false_implies,
    implies_true, and_self]

/-- A row that shows a state. -/
def statusRow (t : Terminal) (indent : Nat) (message : String) (status : Status) : String :=
  spaces indent ++ t.paint status.colour status.icon ++ " " ++ message

/-- A row with a status is one line exactly if its message is. -/
theorem isOneLine_statusRow_iff (t : Terminal) (indent : Nat) (message : String) (status : Status) :
    IsOneLine (t.statusRow indent message status) ↔ IsOneLine message := by
  have hspace : IsOneLine " " := by decide
  simp only [statusRow, isOneLine_append, isOneLine_spaces,
    isOneLine_paint_iff t (isOneLine_colour status), isOneLine_icon, hspace, true_and]

/-- A row with a heading. -/
def headingRow (t : Terminal) (indent : Nat) (text : String) : String :=
  spaces indent ++ t.paint "1;97" text

/-- A heading is one line exactly if its text is. -/
theorem isOneLine_headingRow_iff (t : Terminal) (indent : Nat) (text : String) :
    IsOneLine (t.headingRow indent text) ↔ IsOneLine text := by
  simp only [headingRow, isOneLine_append, isOneLine_spaces, true_and]
  exact isOneLine_paint_iff t (by decide) text

end Terminal

/-! ### Rows for a diagnostic -/

/-- The details of a location are one line each exactly if its field is. -/
theorem Location.isOneLine_details_iff (l : Location) :
    (∀ detail ∈ l.details, IsOneLine detail) ↔ ∀ field ∈ l.field, IsOneLine field := by
  have hentry : IsOneLine "entry " := by decide
  have haction : IsOneLine "action " := by decide
  have hnumbers : ∀ detail ∈ (l.entry.map fun n => s!"entry {n}").toList ++
      (l.action.map fun n => s!"action {n}").toList, IsOneLine detail := by
    intro detail hdetail
    simp only [List.mem_append, Option.mem_toList, Option.map_eq_some_iff] at hdetail
    rcases hdetail with ⟨n, -, rfl⟩ | ⟨n, -, rfl⟩
    · simp [hentry]
    · simp [haction]
  rw [details, List.forall_mem_append, and_iff_right hnumbers]
  simp only [Option.mem_toList, Option.mem_def]

namespace Diagnostic

/-- The scope and the field, which the rows of a section show as they are, stay on one line. -/
def HasOneLinePlace (d : Diagnostic) : Prop :=
  (∀ scope ∈ d.location.scope, IsOneLine scope) ∧ ∀ field ∈ d.location.field, IsOneLine field

instance (d : Diagnostic) : Decidable d.HasOneLinePlace :=
  inferInstanceAs (Decidable (_ ∧ _))

/-- No name of a severity has a line feed. -/
theorem isOneLine_name (severity : Severity) : IsOneLine severity.name := by
  cases severity <;> decide

/-- No name of a kind has a line feed. -/
theorem isOneLine_kind (kind : IssueKind) : IsOneLine kind.name := by
  cases kind <;> decide

/-- The row of a diagnostic stays on one line exactly if its field does, whatever its message is. -/
theorem isOneLine_issueLine_iff (d : Diagnostic) :
    IsOneLine d.issueLine ↔ ∀ field ∈ d.location.field, IsOneLine field := by
  have hmessage := isOneLine_compactLine d.message maxMessageChars
  have hname := isOneLine_name d.severity
  have hkind := isOneLine_kind d.kind
  rw [← d.location.isOneLine_details_iff]
  unfold issueLine
  split
  · next hdetails =>
    simp +decide [hmessage, hname, hkind, hdetails]
  · have hplace : IsOneLine (" > ".intercalate d.location.details) ↔
        ∀ detail ∈ d.location.details, IsOneLine detail :=
      isOneLine_intercalate_iff (by decide) _
    simp +decide [hmessage, hname, hkind, hplace]

/-- An error line is one line exactly if the source, the place and the message are. -/
theorem isOneLine_errorLine_iff (d : Diagnostic) :
    IsOneLine d.errorLine ↔
      IsOneLine d.location.source ∧ d.HasOneLinePlace ∧ IsOneLine d.message := by
  have hname := isOneLine_name d.severity
  have htext : IsOneLine d.location.text ↔ IsOneLine d.location.source ∧ d.HasOneLinePlace := by
    rw [Location.text, isOneLine_intercalate_iff (by decide), List.forall_mem_append,
      List.forall_mem_cons, d.location.isOneLine_details_iff, and_assoc]
    simp only [Option.mem_toList, Option.mem_def]
    rfl
  simp +decide [errorLine, hname, htext, and_assoc]

end Diagnostic

/-! ### Rows of a section -/

namespace Section

/-- The row of a diagnostic below the heading of a scope, if there is one. -/
def issueRow (t : Terminal) (s : Section) (scope : Option String) (d : Diagnostic) : String :=
  t.statusRow (if scope.isSome then 4 else 2) d.issueLine (s.statusOf d)

/-- The rows of a run: the heading, if it has a scope, and one for each of its diagnostics. -/
def runRows (t : Terminal) (s : Section) (run : List Diagnostic) : List String :=
  ((scopeOf? run).map (t.headingRow 2)).toList ++ run.map (s.issueRow t (scopeOf? run))

/-- The rows of a section below its title. -/
def issueRows (t : Terminal) (verbose : Bool) (s : Section) : List String :=
  if s.runs verbose = [] then [t.statusRow 2 "no issues" .pass]
  else (s.runs verbose).flatMap (s.runRows t)

/-- The rows of a section. -/
def rows (t : Terminal) (verbose : Bool) (s : Section) : List String :=
  "" :: t.paint "1" s.fullTitle :: s.issueRows t verbose

variable (t : Terminal) (verbose : Bool) (s : Section)

/-- A run is rendered as its rows. -/
theorem renderRun_eq_unlines (run : List Diagnostic) :
    s.renderRun t run = unlines (s.runRows t run) := by
  have hissues : ∀ scope, String.join (run.map (s.renderLine t scope)) =
      unlines (run.map (s.issueRow t scope)) := by
    intro scope
    rw [unlines, List.map_map]
    rfl
  rw [renderRun, runRows, unlines_append, hissues]
  cases scopeOf? run with
  | none => rfl
  | some scope =>
    simp [Terminal.heading, Terminal.headingRow]

/-- A section is rendered as its rows. -/
theorem render_eq_unlines : s.render t verbose = unlines (s.rows t verbose) := by
  rw [render_eq, renderRuns, rows, issueRows, join_eq_unlines (s.renderRun_eq_unlines t)]
  split <;> simp [Terminal.sectionTitle, Terminal.statusLine, Terminal.statusRow, String.append_assoc]

variable {s verbose}

/-- The visible diagnostics of a section are those of its runs. -/
theorem mem_visible_iff {d : Diagnostic} :
    d ∈ s.visible verbose ↔ ∃ run ∈ s.runs verbose, d ∈ run := by
  rw [← List.mem_flatten, runs, List.flatten_splitBy]

/-- The rows of a run are one line each exactly if the places of its diagnostics are. -/
theorem isOneLine_runRows_iff {run : List Diagnostic} (hrun : run ∈ s.runs verbose) :
    (∀ row ∈ s.runRows t run, IsOneLine row) ↔ ∀ d ∈ run, d.HasOneLinePlace := by
  have hnonempty : run ≠ [] := by
    rintro rfl
    exact List.nil_notMem_splitBy _ _ hrun
  have hheading : (∀ row ∈ ((scopeOf? run).map (t.headingRow 2)).toList, IsOneLine row) ↔
      ∀ d ∈ run, ∀ scope ∈ d.location.scope, IsOneLine scope := by
    have hscopes : (∀ d ∈ run, ∀ scope ∈ d.location.scope, IsOneLine scope) ↔
        ∀ scope ∈ scopeOf? run, IsOneLine scope := by
      constructor
      · intro h scope hscope
        have hfirst := List.head_mem hnonempty
        exact h _ hfirst scope (scope_eq_of_mem_splitBy hrun hfirst ▸ hscope)
      · intro h d hd scope hscope
        exact h scope (scope_eq_of_mem_splitBy hrun hd ▸ hscope)
    rw [hscopes]
    cases scopeOf? run <;> simp [t.isOneLine_headingRow_iff]
  have hissues : (∀ row ∈ run.map (s.issueRow t (scopeOf? run)), IsOneLine row) ↔
      ∀ d ∈ run, ∀ field ∈ d.location.field, IsOneLine field := by
    rw [List.forall_mem_map]
    simp only [issueRow, t.isOneLine_statusRow_iff, Diagnostic.isOneLine_issueLine_iff]
  rw [runRows, List.forall_mem_append, hheading, hissues, ← forall₂_and]
  rfl

/-- The rows of the issues are one line each exactly if the places of the visible diagnostics are. -/
theorem isOneLine_issueRows_iff :
    (∀ row ∈ s.issueRows t verbose, IsOneLine row) ↔
      ∀ d ∈ s.visible verbose, d.HasOneLinePlace := by
  have hvisible : (∀ d ∈ s.visible verbose, d.HasOneLinePlace) ↔
      ∀ run ∈ s.runs verbose, ∀ d ∈ run, d.HasOneLinePlace := by
    simp only [mem_visible_iff]
    exact ⟨fun h run hrun d hd => h d ⟨run, hrun, hd⟩, fun h d ⟨run, hrun, hd⟩ => h run hrun d hd⟩
  rw [hvisible, issueRows]
  split
  · next hruns =>
    rw [hruns, List.forall_mem_singleton, t.isOneLine_statusRow_iff]
    simp +decide
  · rw [List.forall_mem_flatMap]
    exact forall₂_congr fun run hrun => isOneLine_runRows_iff t hrun

/-- The rows of a section stay on one line exactly if the path in its title does, and the scope and
the field of each diagnostic that is shown. -/
theorem isOneLine_rows_iff :
    (∀ row ∈ s.rows t verbose, IsOneLine row) ↔
      IsOneLine s.fullTitle ∧ ∀ d ∈ s.visible verbose, d.HasOneLinePlace := by
  rw [rows, List.forall_mem_cons, List.forall_mem_cons, isOneLine_issueRows_iff,
    t.isOneLine_paint_iff (by decide)]
  exact and_iff_right (by decide)

/-- There is a row for each heading and for each visible diagnostic. -/
theorem length_issueRows (h : s.visible verbose ≠ []) :
    (s.issueRows t verbose).length =
      (s.headings verbose).length + (s.visible verbose).length := by
  have hruns : s.runs verbose ≠ [] := List.splitBy_ne_nil.2 h
  have hrows : ∀ runs : List (List Diagnostic), (runs.flatMap (s.runRows t)).length =
      (runs.filterMap scopeOf?).length + runs.flatten.length := by
    intro runs
    induction runs with
    | nil => rfl
    | cons run runs ih =>
      rw [List.flatMap_cons, List.length_append, ih, List.filterMap_cons, runRows,
        List.length_append, List.length_map, List.flatten_cons, List.length_append]
      cases scopeOf? run with
      | none =>
        simp only [Option.map_none, Option.toList_none, List.length_nil]
        omega
      | some scope =>
        simp only [Option.map_some, Option.toList_some, List.length_cons, List.length_nil]
        omega
  rw [issueRows, if_neg hruns, hrows, headings, runs, List.flatten_splitBy]

end Section

/-! ### Rows of a report -/

namespace Report

/-- The rows of the advice, if there is any. -/
def remediationRows (t : Terminal) (r : Report) : List String :=
  match r.remediations with
  | [] => []
  | advice =>
    "" :: t.paint "1" "Suggested fixes" :: advice.zipIdx.map fun (text, i) => s!"  {i + 1}. {text}"

def verdictRow (t : Terminal) (r : Report) : String :=
  if r.summary.passed then t.statusRow 2 "PASS" .pass
  else
    let failing := Text.previewList r.failing 4 40
    t.statusRow 2 s!"FAIL ({failing})" .fail

/-- The rows of the totals and the verdict. -/
def summaryRows (t : Terminal) (r : Report) : List String :=
  let s := r.summary
  ["", t.paint "1" "Summary",
    s!"  Sources checked:      {s.sources}",
    s!"  Descriptors checked:  {s.descriptors}",
    s!"  Hook entries checked: {s.hookEntries}",
    s!"  Errors:               {s.errors}",
    s!"  Warnings:             {s.warnings}",
    "", r.verdictRow t]

/-- The rows of a report: a banner, its sections, the advice and the totals. -/
def rows (t : Terminal) (verbose : Bool) (r : Report) : List String :=
  t.bannerRows "agentlint" .info ++ r.sections.flatMap (Section.rows t verbose) ++
    r.remediationRows t ++ r.summaryRows t

variable (t : Terminal) (verbose : Bool) (r : Report)

/-- The remediations are rendered as their rows. -/
theorem renderRemediations_eq_unlines : r.renderRemediations t = unlines (r.remediationRows t) := by
  unfold renderRemediations remediationRows
  cases r.remediations with
  | nil => rfl
  | cons text advice =>
    dsimp only
    rw [unlines_cons, unlines_cons, unlines, List.map_map, Terminal.sectionTitle]
    rfl

/-- The summary is rendered as its rows. -/
theorem renderSummary_eq_unlines : r.renderSummary t = unlines (r.summaryRows t) := by
  have hverdict : r.renderVerdict t = unlines [r.verdictRow t] := by
    unfold renderVerdict verdictRow
    split <;> simp [Terminal.statusLine, Terminal.statusRow, String.append_assoc]
  simp only [renderSummary, summaryRows, hverdict, Terminal.sectionTitle, unlines_cons, unlines_nil,
    String.append_assoc, String.empty_append, String.append_empty]
  rfl

/-- A report is rendered as its rows. -/
theorem render_eq_unlines : r.render t verbose = unlines (r.rows t verbose) := by
  rw [render, rows, unlines_append, unlines_append, unlines_append,
    join_eq_unlines (Section.render_eq_unlines t verbose), t.banner_eq_unlines,
    renderRemediations_eq_unlines, renderSummary_eq_unlines]

/-- No row of the remediations has a line feed inside. -/
theorem isOneLine_of_mem_remediationRows : ∀ row ∈ r.remediationRows t, IsOneLine row := by
  have htexts : ∀ a ∈ Advice.table, IsOneLine a.text := by
    simp only [Advice.table, List.forall_mem_cons, isOneLine_append, List.not_mem_nil,
      false_implies, implies_true, and_true]
    and_intros <;> exact (isOneLine_ofList _).2 (by decide)
  have hadvice : ∀ text ∈ r.remediations, IsOneLine text :=
    List.forall_mem_map.2 fun a ha => htexts a (List.mem_of_mem_filter ha)
  unfold remediationRows
  split
  · simp
  · rw [List.forall_mem_cons, List.forall_mem_cons, List.forall_mem_map,
      t.isOneLine_paint_iff (by decide)]
    refine ⟨by decide, by decide, ?_⟩
    rintro ⟨text, i⟩ hmem
    simp +decide [hadvice text (List.fst_mem_of_mem_zipIdx hmem)]

/-- No row of the summary has a line feed inside. -/
theorem isOneLine_of_mem_summaryRows : ∀ row ∈ r.summaryRows t, IsOneLine row := by
  have hverdict : IsOneLine (r.verdictRow t) := by
    unfold verdictRow
    split
    · exact (t.isOneLine_statusRow_iff 2 "PASS" .pass).2 (by decide)
    · rw [t.isOneLine_statusRow_iff]
      simp +decide [isOneLine_previewList]
  have htitle : IsOneLine (t.paint "1" "Summary") := (t.isOneLine_paint_iff (by decide) _).2 (by decide)
  simp +decide [summaryRows, hverdict, htitle]

/-- The rows of a report are the lines of its text exactly if in each section the path in the title
stays on one line, and the scope and the field of each diagnostic that is shown. -/
theorem lines_render_iff :
    lines (r.render t verbose).toList = (r.rows t verbose).map (fun row => (row ++ "\n").toList) ↔
      ∀ s ∈ r.sections, IsOneLine s.fullTitle ∧
        ∀ d ∈ s.visible verbose, d.HasOneLinePlace := by
  rw [render_eq_unlines, lines_unlines_iff, rows, List.forall_mem_append, List.forall_mem_append,
    List.forall_mem_append, List.forall_mem_flatMap]
  have hbanner : ∀ row ∈ t.bannerRows "agentlint" .info, IsOneLine row :=
    t.isOneLine_of_mem_bannerRows (by decide) .info
  simp only [Section.isOneLine_rows_iff]
  exact ⟨fun h => h.1.1.2, fun h => ⟨⟨⟨hbanner, h⟩, isOneLine_of_mem_remediationRows t r⟩,
    isOneLine_of_mem_summaryRows t r⟩⟩

end Report

end Preflight

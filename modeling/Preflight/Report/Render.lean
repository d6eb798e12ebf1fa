import Preflight.Report.Basic
import Preflight.Terminal
import Preflight.Text.Compact

/-!
# Reports as text

A banner, the sections, the advice and the totals. A section lists its visible
diagnostics one a line and puts a heading over each run of neighbours that share
a scope. Notes are visible on demand only, but always in a section that was not
checked.
-/

set_option autoImplicit false

namespace Preflight

/-- The most characters of a message that a line shows. -/
def maxMessageChars : Nat := 240

/-- A diagnostic as one line, below the heading of its scope. -/
def Diagnostic.issueLine (d : Diagnostic) : String :=
  let message := Text.compactLine d.message maxMessageChars
  match d.location.details with
  | [] => s!"{d.severity.name} [{d.kind.name}] {message}"
  | details =>
    let place := " > ".intercalate details
    s!"{d.severity.name} [{d.kind.name}] {place}: {message}"

namespace Section

def fullTitle (s : Section) : String :=
  match s.path with
  | none => s.title
  | some path => s!"{s.title} ({path.text})"

/-- The diagnostics that a reader sees. -/
def visible (s : Section) (verbose : Bool) : List Diagnostic :=
  s.outcome.diagnostics.filter fun d => verbose || d.severity != .info || !s.checked

def statusOf (s : Section) (d : Diagnostic) : Status :=
  if s.checked then .ofSeverity d.severity else .skipped

/-- The lines of diagnostics that follow one of the given scope. -/
def renderFrom (t : Terminal) (s : Section) : Option String → List Diagnostic → String
  | _, [] => ""
  | previous, d :: rest =>
    let scope := d.location.scope
    let heading := match scope with
      | some name => if previous = some name then "" else t.heading 2 name
      | none => ""
    let indent := if scope.isSome then 4 else 2
    heading ++ t.statusLine indent d.issueLine (s.statusOf d) ++ renderFrom t s scope rest

def render (t : Terminal) (verbose : Bool) (s : Section) : String :=
  let lines := match s.visible verbose with
    | [] => t.statusLine 2 "no issues" .pass
    | visible => renderFrom t s none visible
  t.sectionTitle s.fullTitle ++ lines

end Section

namespace Report

/-- The advice as a numbered list, if there is any. -/
def renderRemediations (t : Terminal) (r : Report) : String :=
  match r.remediations with
  | [] => ""
  | advice =>
    t.sectionTitle "Suggested fixes" ++
      String.join (advice.zipIdx.map fun (text, i) => s!"  {i + 1}. {text}\n")

def renderVerdict (t : Terminal) (r : Report) : String :=
  if r.summary.passed then t.statusLine 2 "PASS" .pass
  else
    let failing := Text.previewList r.failing 4 40
    t.statusLine 2 s!"FAIL ({failing})" .fail

/-- The totals and the verdict. -/
def renderSummary (t : Terminal) (r : Report) : String :=
  let s := r.summary
  t.sectionTitle "Summary" ++
    s!"  Sources checked:      {s.sources}\n" ++
    s!"  Descriptors checked:  {s.descriptors}\n" ++
    s!"  Hook entries checked: {s.hookEntries}\n" ++
    s!"  Errors:               {s.errors}\n" ++
    s!"  Warnings:             {s.warnings}\n" ++
    "\n" ++ r.renderVerdict t

def render (t : Terminal) (verbose : Bool) (r : Report) : String :=
  t.banner "agentlint" .info ++ String.join (r.sections.map (Section.render t verbose)) ++
    r.renderRemediations t ++ r.renderSummary t

end Report

end Preflight

import Preflight.Diagnostic.Json
import Preflight.Json.Printer
import Preflight.Report.Basic
import Preflight.RunError

/-!
# Reports as JSON

The machine-readable form of a report: its sections with all their diagnostics,
the advice and the totals. It holds the paths of the report letter by letter, so
there is none for a report with a path that is no text.
-/

set_option autoImplicit false

namespace Preflight

open Preflight.Json (Value member?)

def Section.toJson (s : Section) : Value :=
  .object <|
    ("title", .string s.title) :: member? "path" (.string ·.text) s.path ++
      [("checked", .bool s.checked), ("outcome", s.outcome.toJson)]

/-- Totals as an object. -/
def Summary.toJson (s : Summary) : Value :=
  .object
    [("sources", .count s.sources), ("descriptors", .count s.descriptors),
      ("hook_entries", .count s.hookEntries), ("errors", .count s.errors),
      ("warnings", .count s.warnings), ("passed", .bool s.passed)]

def Report.toJson (r : Report) : Value :=
  .object
    [("sections", .array (r.sections.map Section.toJson)),
      ("remediations", .array (r.remediations.map .string)),
      ("summary", r.summary.toJson)]

def Report.jsonText (r : Report) : String :=
  r.toJson.pretty

/-- The paths in a report: those of its sections and those that diagnostics point to. -/
def Report.paths (r : Report) : List Path :=
  r.sections.flatMap fun s =>
    s.path.toList ++ s.outcome.diagnostics.filterMap fun d => d.location.path

/-- Write a report as JSON, given which paths are texts. -/
def Report.writeJson (isText : Path → Bool) (r : Report) : Except RunError String :=
  if r.paths.all isText then .ok r.jsonText else .error .pathNotText

end Preflight

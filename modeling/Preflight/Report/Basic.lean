import Preflight.Diagnostic.Outcome
import Preflight.Text.Substring

/-!
# Reports

A report is a list of sections, one a checked source, and two counts of what was
looked at. Its totals, its verdict, the advice that goes with its errors and its
error lines are all read off the sections.
-/

set_option autoImplicit false

namespace Preflight

/-- One source of a report. A source that did not exist is not checked but is still reported. -/
structure Section where
  title : String
  path : Option Path
  checked : Bool
  outcome : Outcome
deriving Repr, DecidableEq

/-- A report on one run. -/
structure Report where
  sections : List Section
  descriptors : Nat
  hookEntries : Nat
deriving Repr, DecidableEq

/-- The totals of a report. -/
structure Summary where
  sources : Nat
  descriptors : Nat
  hookEntries : Nat
  errors : Nat
  warnings : Nat
  passed : Bool
deriving Repr, DecidableEq

/-- Advice for errors whose message holds a phrase. -/
structure Advice where
  phrase : String
  text : String
deriving Repr, DecidableEq

/-- All advice, in the order in which it is given. -/
def Advice.table : List Advice :=
  [⟨"script file not found",
      "Create the missing script or fix its path in the hook command. Relative paths resolve " ++
        "against the project root; use $CLAUDE_PROJECT_DIR for portability."⟩,
    ⟨"timeout",
      "Set timeouts as plain numbers of seconds inside the allowed range. Slow work belongs in a " ++
        "background process, not a blocking hook."⟩,
    ⟨"missing top-level 'hooks' key",
      "Nest lifecycle entries under a top-level \"hooks\" object in the settings file."⟩,
    ⟨"unknown lifecycle",
      "Lifecycle names are case-sensitive; check the spelling against the supported list."⟩,
    ⟨"'hooks' action list",
      "Give every matcher entry a \"hooks\" list of \x7b\"type\": \"command\", \"command\": ...\x7d " ++
        "actions."⟩,
    ⟨"missing required field",
      "Add the field to the descriptor header between the opening and closing '---' lines."⟩,
    ⟨"invalid model",
      "Use one of the listed model names, or 'inherit' to follow the session model."⟩,
    ⟨"header",
      "Start each descriptor with a '---' line, the header fields, then a closing '---' line."⟩,
    ⟨"agent file(s) but",
      "Update the manifest so it lists every descriptor file exactly once."⟩,
    ⟨"references a directory",
      "List descriptor files individually in the manifest instead of their directory."⟩,
    ⟨"invalid JSON",
      "Fix the JSON syntax; trailing commas and unquoted keys are the usual culprits."⟩]

def Advice.appliesTo (a : Advice) (d : Diagnostic) : Bool :=
  Text.occurs a.phrase.toList d.message.toList

def Diagnostic.errorLine (d : Diagnostic) : String :=
  s!"{d.severity.name}: {d.location.text}: {d.message}"

namespace Report

/-- A report without sections. -/
def empty : Report := ⟨[], 0, 0⟩

def push (r : Report) (s : Section) : Report :=
  { r with sections := r.sections ++ [s] }

/-- All diagnostics in the order of the sections. -/
def outcome (r : Report) : Outcome :=
  .concat (r.sections.map Section.outcome)

/-- The totals; only sources that were checked count. -/
def summary (r : Report) : Summary where
  sources := (r.sections.filter Section.checked).length
  descriptors := r.descriptors
  hookEntries := r.hookEntries
  errors := r.outcome.errorCount
  warnings := r.outcome.warningCount
  passed := !r.outcome.hasErrors

/-- The advice for the errors of the report, each at most once. -/
def remediations (r : Report) : List String :=
  (Advice.table.filter fun a => r.outcome.errors.any a.appliesTo).map Advice.text

def errorLines (r : Report) : List String :=
  r.outcome.errors.map Diagnostic.errorLine

/-- The titles of the sections with errors. -/
def failing (r : Report) : List String :=
  (r.sections.filter (·.outcome.hasErrors)).map Section.title

end Report

end Preflight

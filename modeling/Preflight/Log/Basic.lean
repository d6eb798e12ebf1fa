import Preflight.Table
import Preflight.Text.Ascii

/-!
# The log

While it checks a project a run tells a log what it looks at and what it cannot
read. What it tells is a list of records and depends on the project only. Which of
them are written, and how, is up to a logger: its lines tell the time, so those of
two runs differ even if their records do not.
-/

set_option autoImplicit false

namespace Preflight

open Preflight.Text

/-- A record of the log. -/
inductive LogRecord where
  /-- Something may be wrong. -/
  | warning (message : String)
  /-- Something is looked at. -/
  | detail (message : String)
deriving Repr, DecidableEq

namespace LogRecord

/-- Whether a record is written at a level; the names of the levels are in small letters. -/
def isAdmitted (level : String) : LogRecord → Bool
  | .warning _ => ["warn", "info", "debug", "trace"].contains level
  | .detail _ => ["debug", "trace"].contains level

/-- A record as it stands in a line of the log, after the time. -/
def text : LogRecord → String
  | .warning message => s!" WARN {message}"
  | .detail message => s!"DEBUG {message}"

end LogRecord

/-- Which records are written, and the line for each of them. The lines are numbered, because they tell the time. -/
structure Logger where
  admits : LogRecord → Bool
  line : Nat → LogRecord → String

namespace Logger

/-- What is written for a list of records. -/
def write (l : Logger) (records : List LogRecord) : String :=
  String.join ((records.filter l.admits).zipIdx.map fun (r, number) => l.line number r)

/-- The level that is used if no other is asked for. -/
def defaultLevel : String := "warn"

/-- The variable that asks for a level. -/
def levelVariable : String := "AGENTLINT_LOG"

/-- The logger for the level that the variables of an environment name, given the times of its lines. -/
def ofVariables (vars : Table String) (time : Nat → String) : Logger :=
  let level := String.ofList (lowerAscii ((vars.find? levelVariable).getD defaultLevel).toList)
  ⟨LogRecord.isAdmitted level, fun number r => s!"{time number} {r.text}\n"⟩

end Logger

end Preflight

import Preflight.Path.Basic

/-!
# Diagnostics

What a check has to say about one place of its input. The severity decides
whether a run fails, the kind says which class of rule spoke, and the location
leads from the source through a scope (a file or a lifecycle), an entry and an
action down to a field.
-/

set_option autoImplicit false

namespace Preflight

/-- How serious a diagnostic is. -/
inductive Severity where
  | error
  | warning
  | info
deriving Repr, DecidableEq

def Severity.name : Severity → String
  | .error => "error"
  | .warning => "warning"
  | .info => "info"

/-- The class of rule that produced a diagnostic. -/
inductive IssueKind where
  /-- A header or a container is malformed or missing. -/
  | structural
  /-- A field is missing or has a value that is not allowed. -/
  | schema
  /-- A file is missing, or the manifest and the directory differ. -/
  | referential
  /-- A number is out of bounds. -/
  | range
  /-- A matcher, a command or a name looks wrong. -/
  | syntactic
  /-- A note or a recommendation. -/
  | advisory
deriving Repr, DecidableEq

def IssueKind.name : IssueKind → String
  | .structural => "structural"
  | .schema => "schema"
  | .referential => "referential"
  | .range => "range"
  | .syntactic => "syntax"
  | .advisory => "advisory"

/-- Where a diagnostic points. -/
structure Location where
  source : String
  scope : Option String
  entry : Option Nat
  action : Option Nat
  field : Option String
  path : Option Path
deriving Repr, DecidableEq

namespace Location

def ofSource (source : String) : Location :=
  ⟨source, none, none, none, none, none⟩

def inScope (l : Location) (scope : String) : Location :=
  { l with scope := some scope }

def atEntry (l : Location) (entry : Nat) : Location :=
  { l with entry := some entry }

def atAction (l : Location) (action : Nat) : Location :=
  { l with action := some action }

def atField (l : Location) (field : String) : Location :=
  { l with field := some field }

/-- The location with the path of the file it is about. -/
def onPath (l : Location) (path : Path) : Location :=
  { l with path := some path }

/-- The parts of a location below its scope, in words. -/
def details (l : Location) : List String :=
  (l.entry.map fun n => s!"entry {n}").toList ++ (l.action.map fun n => s!"action {n}").toList ++
    l.field.toList

/-- A location in words, from the source down; the path is left out. -/
def text (l : Location) : String :=
  " > ".intercalate (l.source :: l.scope.toList ++ l.details)

end Location

/-- What a check says about a place. -/
structure Diagnostic where
  severity : Severity
  kind : IssueKind
  message : String
  location : Location
deriving Repr, DecidableEq

namespace Diagnostic

def error (kind : IssueKind) (message : String) (location : Location) : Diagnostic :=
  ⟨.error, kind, message, location⟩

def warning (kind : IssueKind) (message : String) (location : Location) : Diagnostic :=
  ⟨.warning, kind, message, location⟩

/-- A note; notes are advisory. -/
def info (message : String) (location : Location) : Diagnostic :=
  ⟨.info, .advisory, message, location⟩

def isError (d : Diagnostic) : Bool :=
  d.severity == .error

def isWarning (d : Diagnostic) : Bool :=
  d.severity == .warning

end Diagnostic

end Preflight

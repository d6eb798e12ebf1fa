import Preflight.Diagnostic.Basic

/-!
# Outcomes of checks

The outcome of a check is the list of its diagnostics, and outcomes are combined
by concatenation. Totals are read off the list and never kept beside it.
-/

set_option autoImplicit false

namespace Preflight

/-- The diagnostics of a check, in order. -/
structure Outcome where
  diagnostics : List Diagnostic
deriving Repr, DecidableEq, Inhabited

namespace Outcome

/-- Nothing to say. -/
def clean : Outcome := ⟨[]⟩

def single (d : Diagnostic) : Outcome := ⟨[d]⟩

def ofOption (d : Option Diagnostic) : Outcome := ⟨d.toList⟩

/-- One outcome after the other. -/
def append (a b : Outcome) : Outcome := ⟨a.diagnostics ++ b.diagnostics⟩

instance : Append Outcome := ⟨append⟩

/-- Outcomes one after the other. -/
def concat (outcomes : List Outcome) : Outcome := ⟨outcomes.flatMap diagnostics⟩

def errors (o : Outcome) : List Diagnostic := o.diagnostics.filter Diagnostic.isError

def warnings (o : Outcome) : List Diagnostic := o.diagnostics.filter Diagnostic.isWarning

def errorCount (o : Outcome) : Nat := o.errors.length

def warningCount (o : Outcome) : Nat := o.warnings.length

def hasErrors (o : Outcome) : Bool := o.diagnostics.any Diagnostic.isError

/-- Whether there is nothing to say. -/
def isEmpty (o : Outcome) : Bool := o.diagnostics.isEmpty

/-- The diagnostics of two outcomes, one after the other. -/
@[simp] theorem diagnostics_append (a b : Outcome) :
    (a ++ b).diagnostics = a.diagnostics ++ b.diagnostics := rfl

end Outcome

end Preflight

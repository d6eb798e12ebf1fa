import Preflight.Config.Basic
import Preflight.Diagnostic.Basic
import Preflight.Json.Printer

/-!
# Timeouts of hook actions

A timeout is a number of seconds between two bounds, and it should not be less
than a tenth of what is recommended for its lifecycle. Numbers are compared as
doubles.
-/

set_option autoImplicit false

namespace Preflight.Hooks

open Preflight.Json (Value)
open Preflight.Number

/-- The double nearest to a bound. -/
def ofBound (bound : UInt64) : Binary64 :=
  .ofNat bound.toNat

/-- Whether a number of seconds lies between the bounds. -/
def isAllowed (rules : HookRules) (seconds : Binary64) : Bool :=
  (ofBound rules.minTimeout).le seconds && seconds.le (ofBound rules.maxTimeout)

/-- Whether a number of seconds is less than a tenth of a recommended one. -/
def isFarBelow (recommended : UInt64) (seconds : Binary64) : Bool :=
  ((ofBound recommended).div? (.ofNat 10)).any seconds.lt

/-- What there is to say about a number of seconds. -/
def secondsIssue? (rules : HookRules) (lifecycle : String) (timeout : Json.Number)
    (location : Location) : Option Diagnostic :=
  let seconds := timeout.toBinary64
  if isAllowed rules seconds then
    match rules.recommendedTimeout? lifecycle with
    | none => none
    | some recommended =>
      if isFarBelow recommended seconds then
        some (.warning .advisory
          s!"timeout {timeout.text}s is far below the {recommended.toNat}s recommended for {lifecycle}"
          location)
      else none
  else
    some (.error .range
      s!"timeout {timeout.text} is outside the allowed range [{rules.minTimeout.toNat}, {rules.maxTimeout.toNat}] seconds"
      location)

/-- What there is to say about the timeout of an action. -/
def timeoutIssue? (rules : HookRules) (lifecycle : String) (timeout : Option Value)
    (action : Location) : Option Diagnostic :=
  let location := action.atField "timeout"
  match timeout with
  | none =>
    some (.info s!"no timeout set; the default of {rules.defaultTimeout.toNat}s applies" location)
  | some (.number n) => secondsIssue? rules lifecycle n location
  | some other =>
    some (.error .range s!"timeout must be a number of seconds, found {other.typeName}" location)

end Preflight.Hooks

import Preflight.Diagnostic.Outcome
import Preflight.Hooks.Action
import Preflight.Hooks.Matcher

/-!
# Hook settings

A settings document maps lifecycles to lists of entries; an entry has a matcher
and a list of actions. A part of the wrong shape gives one error and is not
looked into; the parts beside it are checked all the same. Lifecycles are
checked in the order of their names.
-/

set_option autoImplicit false

namespace Preflight.Hooks

open Preflight.Json (Value)

/-- A lifecycle of a document with the number of its entries. -/
structure LifecycleCount where
  name : String
  entries : Nat
deriving Repr, DecidableEq

/-- The result of checking one source of hooks. A source that does not exist is not loaded. -/
structure SourceReport where
  label : String
  path : Option Path
  loaded : Bool
  lifecycles : List LifecycleCount
  outcome : Outcome
deriving Repr, DecidableEq

namespace SourceReport

/-- A report without lifecycles. -/
def ofOutcome (label : String) (outcome : Outcome) : SourceReport :=
  ⟨label, none, true, [], outcome⟩

/-- The number of hook entries. -/
def hooks (r : SourceReport) : Nat :=
  (r.lifecycles.map LifecycleCount.entries).foldr (· + ·) 0

end SourceReport

/-- What there is to say about a matcher; an entry may lack one. -/
def matcherIssue? (matcher : Option Value) (entry : Location) : Option Diagnostic :=
  let location := entry.atField "matcher"
  match matcher with
  | none => none
  | some (.string text) =>
    if isMatcher text.toList then none
    else some (.warning .syntactic s!"matcher \"{text}\" syntax may be incorrect" location)
  | some other =>
    some (.warning .syntactic s!"matcher should be a string, found {other.typeName}" location)

namespace Checker

/-- What there is to say about the action list of an entry. -/
def checkActions (c : Checker) (lifecycle : String) (location : Location) :
    Option Value → Outcome
  | none =>
    .single (.error .structural "entry has no 'hooks' action list" (location.atField "hooks"))
  | some (.array actions) =>
    .concat (actions.zipIdx.map fun (action, i) =>
      c.checkAction lifecycle (location.atAction i) action)
  | some other =>
    .single (.error .structural s!"'hooks' must be a list of actions, found {other.typeName}"
      (location.atField "hooks"))

/-- What there is to say about an entry. -/
def checkEntry (c : Checker) (lifecycle : String) (location : Location) (entry : Value) :
    Outcome :=
  match entry.members? with
  | none =>
    .single (.error .structural s!"matcher entry must be an object, found {entry.typeName}"
      location)
  | some members =>
    .ofOption (matcherIssue? (members.find? "matcher") location) ++
      c.checkActions lifecycle location (members.find? "hooks")

/-- What there is to say about the entries of a lifecycle. -/
def checkEntries (c : Checker) (lifecycle : String) (location : Location) (entries : List Value) :
    Outcome :=
  .concat (entries.zipIdx.map fun (entry, i) =>
    c.checkEntry lifecycle (location.atEntry i) entry)

/-- The lifecycle with the number of its entries, if it has any to count, and what there is to say about it. -/
def checkLifecycle (c : Checker) (label lifecycle : String) (value : Value) :
    Option LifecycleCount × Outcome :=
  let location := (Location.ofSource label).inScope lifecycle
  if c.rules.isLifecycle lifecycle then
    match value with
    | .array entries =>
      (some ⟨lifecycle, entries.length⟩, c.checkEntries lifecycle location entries)
    | other =>
      (none, .single (.error .structural
        s!"lifecycle '{lifecycle}' must be a list of matcher entries, found {other.typeName}"
        location))
  else
    let known := ", ".intercalate c.rules.lifecycles
    (none, .single (.error .schema
      s!"unknown lifecycle '{lifecycle}': expected one of {known}" location))

def checkLifecycles (c : Checker) (label : String) (lifecycles : Table Value) : SourceReport :=
  let checked := lifecycles.entries.map fun e => c.checkLifecycle label e.1 e.2
  ⟨label, none, true, checked.filterMap Prod.fst, .concat (checked.map Prod.snd)⟩

def checkSettings (c : Checker) (label : String) (settings : Value) : SourceReport :=
  let location := Location.ofSource label
  match settings.members? with
  | none =>
    .ofOutcome label (.single (.error .structural
      s!"settings must be a JSON object, found {settings.typeName}" location))
  | some members =>
    match members.find? "hooks" with
    | none =>
      .ofOutcome label (.single (.error .structural "missing top-level 'hooks' key" location))
    | some hooks =>
      match hooks.members? with
      | some lifecycles => c.checkLifecycles label lifecycles
      | none =>
        .ofOutcome label (.single (.error .structural
          s!"'hooks' must map lifecycle names to entry lists, found {hooks.typeName}"
          (location.atField "hooks")))

end Checker

end Preflight.Hooks

import Preflight.Hooks.Settings
import Preflight.Json.Reader

/-!
# Sources of hooks

Hooks are set in two places: globally in the home directory of the user, and in
the project. A run covers one of them or both. A source that does not exist is
skipped with a note.
-/

set_option autoImplicit false

namespace Preflight.Hooks

open Preflight.Json (Value)

/-- A settings document under its label. -/
structure Source where
  label : String
  path : Path
deriving Repr, DecidableEq

/-- Which sources are asked for by name; if none is, all are meant. -/
structure Selection where
  globally : Bool
  inProject : Bool
deriving Repr, DecidableEq

namespace Selection

/-- No source is asked for by name. -/
def all : Selection := ⟨false, false⟩

def wantsGlobal (s : Selection) : Bool :=
  s.globally || !s.inProject

def wantsProject (s : Selection) : Bool :=
  s.inProject || !s.globally

end Selection

def sources (rules : HookRules) (resolver : Resolver) (s : Selection) : List Source :=
  (if s.wantsGlobal then [⟨"global", resolver.resolve rules.globalPath⟩] else []) ++
    (if s.wantsProject then [⟨"project", resolver.resolve rules.projectPath⟩] else [])

namespace Checker

/-- Check the text of a settings document. -/
def checkText (c : Checker) (label : String) (location : Location) (text : String) : SourceReport :=
  match Value.ofText text with
  | .ok settings => c.checkSettings label settings
  | .error failure =>
    let detail := failure.describe text.toList
    .ofOutcome label (.single (.error .structural s!"invalid JSON: {detail}" location))

def checkSource (c : Checker) (source : Source) : SourceReport :=
  let location := (Location.ofSource source.label).onPath source.path
  let report :=
    if c.files.contains source.path then
      match c.files.readText source.path with
      | .ok text => c.checkText source.label location text
      | .error e =>
        .ofOutcome source.label
          (.single (.error .structural s!"could not read settings: {e.message}" location))
    else
      let note := Diagnostic.info s!"no settings at {source.path.text}; skipped" location
      { SourceReport.ofOutcome source.label (.single note) with loaded := false }
  { report with path := some source.path }

end Checker

/-- The result of checking several sources. -/
structure Run where
  sources : List SourceReport
deriving Repr, DecidableEq

namespace Run

/-- The number of sources that existed. -/
def checked (r : Run) : Nat :=
  (r.sources.filter SourceReport.loaded).length

/-- The number of hook entries in all sources. -/
def hooks (r : Run) : Nat :=
  (r.sources.map SourceReport.hooks).foldr (· + ·) 0

/-- What there is to say about all sources. -/
def outcome (r : Run) : Outcome :=
  .concat (r.sources.map SourceReport.outcome)

end Run

/-- Check the sources that a selection means. -/
def run (t : FileTree) (config : Config) (resolver : Resolver) (s : Selection) : Run :=
  ⟨(sources config.hooks resolver s).map (Checker.mk config.hooks resolver t).checkSource⟩

end Preflight.Hooks

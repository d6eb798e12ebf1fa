import Preflight.Agents.Schema
import Preflight.Manifest.CrossCheck
import Preflight.RunError

/-!
# Batches of descriptors

All descriptors of a project are checked one after the other, in the order of
their names. A document that cannot be read or has no header gives one error, and
the batch goes on. Then the manifest, if there is one, is compared with the
directory.
-/

set_option autoImplicit false

namespace Preflight.Agents

open Preflight.Header

/-- What is to be checked, where that differs from the configuration. -/
structure Options where
  dir : Option Path
  manifest : Option Path
  skipManifest : Bool
deriving Repr, DecidableEq

/-- Check what the configuration says. -/
def Options.default : Options := ⟨none, none, false⟩

/-- The result of comparing a manifest. -/
structure ManifestRun where
  path : Path
  entries : Nat
  outcome : Outcome
deriving Repr, DecidableEq

/-- The result of checking a directory of descriptors. -/
structure Run where
  dir : Path
  documents : Nat
  outcome : Outcome
  manifest : Option ManifestRun
deriving Repr, DecidableEq

/-- The name under which a file appears in locations: that of its last step, or its path. -/
def labelOf (path : Path) : String :=
  path.fileName?.getD path.text

/-- A name without the suffix of descriptors. -/
def stemOf (suffix label : String) : String :=
  ((Text.dropEnd? suffix.toList label.toList).map String.ofList).getD label

/-- What there is to say about one descriptor file. -/
def checkFile (t : FileTree) (path : Path) (rules : AgentRules) : Outcome :=
  let label := labelOf path
  let location := ((Location.ofSource source).inScope label).onPath path
  match t.readText path with
  | .error e =>
    .single (.error .structural s!"could not read descriptor: {e.message}" location)
  | .ok text =>
    match Document.ofText text with
    | .ok doc => checkDocument doc (stemOf rules.suffix label) label rules
    | .error e => .single (.error .structural e.message location)

/-- The directory of descriptors. -/
def dirIn (root : Path) (rules : AgentRules) (options : Options) : Path :=
  root.join (options.dir.getD ⟨rules.dir⟩)

/-- What there is to say about the files of an inventory. -/
def checkFiles (t : FileTree) (inventory : Inventory) (rules : AgentRules) : Outcome :=
  .concat (inventory.names.map fun name => checkFile t (inventory.pathOf name) rules)

/-- A note that the manifest document has no list, if there is such a document. -/
def manifestNote (t : FileTree) (root : Path) (rules : ManifestRules) (options : Options) :
    Outcome :=
  let path := Manifest.pathIn root rules options.manifest
  if t.isFile path then
    .single (.info s!"manifest has no '{rules.key}' list; cross-check skipped"
      ((Location.ofSource Manifest.source).onPath path))
  else .clean

/-- The comparison with the manifest, if there is one, and a note on the batch otherwise. -/
def compareManifest (t : FileTree) (root : Path) (config : Config) (options : Options)
    (inventory : Inventory) : Option ManifestRun × Outcome :=
  if options.skipManifest then (none, .clean)
  else
    match Manifest.load t root config.manifest options.manifest with
    | .ok none => (none, manifestNote t root config.manifest options)
    | .ok (some m) =>
      let entryRoot := root.join ⟨config.manifest.root⟩
      (some ⟨m.path, m.entries.length, Manifest.crossCheck t m inventory entryRoot config.agents.suffix⟩,
        .clean)
    | .error issue =>
      (some ⟨Manifest.pathIn root config.manifest options.manifest, 0, .single issue⟩, .clean)

/-- Check the descriptors of a project. -/
def run (t : FileTree) (root : Path) (config : Config) (options : Options) :
    Except RunError Run :=
  let dir := dirIn root config.agents options
  if t.isDirectory dir then
    match Inventory.scan t dir config.agents.suffix with
    | .error e => .error (.unreadable e)
    | .ok inventory =>
      let (manifest, note) := compareManifest t root config options inventory
      .ok ⟨dir, inventory.size, checkFiles t inventory config.agents ++ note, manifest⟩
  else .error (.descriptorsMissing dir)

end Preflight.Agents

import Preflight.Diagnostic.Outcome
import Preflight.Manifest.Basic
import Preflight.Manifest.Inventory
import Preflight.Text.Substring

/-!
# Manifests against directories

Four checks compare a manifest with the files of a directory: every entry on its
own, entries that repeat an earlier one, the number of entries against the number
of files, and files that no entry declares. Their diagnostics follow each other in
this order.
-/

set_option autoImplicit false

namespace Preflight.Manifest

open Preflight.Json (Value)

def location (m : Manifest) : Location :=
  (Location.ofSource source).inScope m.path.text

def locationOf (m : Manifest) (entry : Nat) : Location :=
  (m.location.atEntry entry).atField m.key

/-- The file that an entry declares, given the directory that entries are relative to. -/
def resolveEntry (root : Path) (entry : String) : Path :=
  (root.join ⟨normalizeSeparators entry⟩).clean

/-- A text without the single dots and separators at its start. -/
def dropDots : List Char → List Char
  | '.' :: '/' :: rest => dropDots rest
  | s => s

/-- What two entries have in common if one repeats the other. -/
def entryKey (entry : String) : String :=
  normalizeSeparators (String.ofList (dropDots entry.toList))

/-- Whether an entry ends with a separator. -/
def isDirectoryName (entry : String) : Bool :=
  entry.toList.getLast?.any fun c => c == '/' || c == '\\'

/-! ### One entry -/

/-- An entry must not be a directory. -/
def directoryIssue? (m : Manifest) (index : Nat) (entry : String) : Option Diagnostic :=
  if isDirectoryName entry then
    some (.error .structural
      s!"'{entry}' references a directory; list every agent file individually"
      (m.locationOf index))
  else none

/-- An entry must have the suffix of descriptors. -/
def suffixIssue? (m : Manifest) (index : Nat) (entry suffix : String) : Option Diagnostic :=
  if Inventory.hasSuffix suffix entry then none
  else
    some (.error .schema s!"'{entry}' does not end with '{suffix}'" (m.locationOf index))

/-- What an entry declares must exist. -/
def existenceIssue? (t : FileTree) (m : Manifest) (root : Path) (index : Nat) (entry : String) :
    Option Diagnostic :=
  let path := resolveEntry root entry
  if t.contains path then none
  else
    some (.error .referential s!"'{entry}' not found: {path.text}"
      ((m.locationOf index).onPath path))

/-- What there is to say about one entry. -/
def checkEntry (t : FileTree) (m : Manifest) (root : Path) (suffix : String) (index : Nat) :
    Value → Outcome
  | .string entry =>
    ⟨(m.directoryIssue? index entry).toList ++ (m.suffixIssue? index entry suffix).toList ++
      (existenceIssue? t m root index entry).toList⟩
  | other =>
    .single (.error .structural s!"entry must be a string, found {other.typeName}"
      (m.locationOf index))

/-- What there is to say about every entry on its own. -/
def checkEntries (t : FileTree) (m : Manifest) (root : Path) (suffix : String) : Outcome :=
  .concat (m.entries.zipIdx.map fun (entry, index) => checkEntry t m root suffix index entry)

/-! ### Repeated entries -/

/-- A string entry that has something in common with an earlier one repeats it. -/
def repetition? (m : Manifest) (keys : List (Option String)) (index : Nat) (entry : String) :
    Option Diagnostic :=
  if (keys.take index).contains (some (entryKey entry)) then
    some (.warning .referential s!"'{entry}' is listed more than once" (m.locationOf index))
  else none

/-- The entries that repeat an earlier one. -/
def checkRepetitions (m : Manifest) : Outcome :=
  let keys := m.entries.map fun entry => entry.string?.map entryKey
  ⟨m.entries.zipIdx.filterMap fun (entry, index) => entry.string?.bind (m.repetition? keys index)⟩

/-! ### All entries together -/

/-- There must be as many entries as files. -/
def checkCount (m : Manifest) (inventory : Inventory) : Outcome :=
  if m.entries.length = inventory.size then .clean
  else
    .single (.error .referential
      s!"manifest declares {m.entries.length} agent file(s) but {inventory.size} exist in {inventory.dir.text}"
      m.location)

/-- The files that the entries declare. -/
def declared (m : Manifest) (root : Path) : List Path :=
  (m.entries.filterMap Value.string?).map (resolveEntry root)

/-- The files that no entry declares. -/
def checkUndeclared (m : Manifest) (inventory : Inventory) (root : Path) : Outcome :=
  let declared := m.declared root
  let missing := inventory.names.filter fun name => !declared.contains (inventory.pathOf name).clean
  ⟨missing.map fun name =>
    .warning .referential s!"'{name}' exists on disk but is not declared in the manifest"
      (m.location.atField name)⟩

/-- What there is to say about a manifest and the files of a directory. -/
def crossCheck (t : FileTree) (m : Manifest) (inventory : Inventory) (root : Path)
    (suffix : String) : Outcome :=
  checkEntries t m root suffix ++ m.checkRepetitions ++ m.checkCount inventory ++
    m.checkUndeclared inventory root

end Preflight.Manifest

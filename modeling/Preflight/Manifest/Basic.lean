import Preflight.Config.Basic
import Preflight.Diagnostic.Basic
import Preflight.FileTree.Lookup
import Preflight.Json.Reader

/-!
# Manifests

A manifest is the list of paths that a JSON document declares under one key. A
project need not have one: without the document or without the key there is no
manifest, unless the document was asked for by name.
-/

set_option autoImplicit false

namespace Preflight

open Preflight.Json (Value)

/-- A declared list of descriptor files. The entries may be any values. -/
structure Manifest where
  path : Path
  key : String
  entries : List Value
deriving Repr

namespace Manifest

/-- The source that manifest diagnostics are about. -/
def source : String := "manifest"

/-- The document with the list: the one that is asked for, or the configured one. -/
def pathIn (root : Path) (rules : ManifestRules) (explicit : Option Path) : Path :=
  root.join (explicit.getD ⟨rules.path⟩)

/-- The manifest that the text of a document declares. -/
def ofText (path : Path) (key : String) (text : String) : Except Diagnostic (Option Manifest) :=
  let location := (Location.ofSource source).onPath path
  match Value.ofText text with
  | .error failure =>
    let detail := failure.describe text.toList
    .error (.error .structural s!"invalid JSON in manifest {path.text}: {detail}" location)
  | .ok document =>
    match document.member? key with
    | none => .ok none
    | some (.array entries) => .ok (some ⟨path, key, entries⟩)
    | some other =>
      .error (.error .structural
        s!"manifest key '{key}' must be a list of paths, found {other.typeName}"
        (location.atField key))

def load (t : FileTree) (root : Path) (rules : ManifestRules) (explicit : Option Path) :
    Except Diagnostic (Option Manifest) :=
  let path := pathIn root rules explicit
  let location := (Location.ofSource source).onPath path
  if t.isFile path then
    match t.readText path with
    | .error e =>
      .error (.error .structural s!"could not read manifest {path.text}: {e.message}" location)
    | .ok text => ofText path rules.key text
  else if explicit.isSome then
    .error (.error .referential s!"manifest file not found: {path.text}" location)
  else .ok none

end Manifest

end Preflight

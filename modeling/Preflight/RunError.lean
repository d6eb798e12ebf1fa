import Preflight.FileTree.Lookup

/-!
# Why a run ends early

A run that cannot look at its input, that cannot write what it found or that found
errors ends with one of these causes.
-/

set_option autoImplicit false

namespace Preflight

/-- Why a run ends without success. -/
inductive RunError where
  /-- A file or a directory cannot be read. -/
  | unreadable (cause : FileError)
  /-- The project cannot be found. -/
  | rootMissing (root : Path) (cause : FileError)
  | configMissing (path : Path)
  /-- A configuration file cannot be understood. -/
  | configMalformed (path : Path) (detail : String)
  /-- The bounds of timeouts leave no timeout. -/
  | configBounds (least greatest : UInt64)
  | descriptorsMissing (dir : Path)
  /-- A report with a path that is no text cannot be written as JSON. -/
  | pathNotText
  /-- The checks found errors. -/
  | issues (errors warnings : Nat)
deriving Repr, DecidableEq

/-- The cause in words. -/
def RunError.message : RunError → String
  | .unreadable cause => s!"I/O error: {cause.message}"
  | .rootMissing root cause => s!"Path error: {root.text}: {cause.message}"
  | .configMissing path => s!"Configuration error: config file not found: {path.text}"
  | .configMalformed path detail => s!"Configuration error: {path.text}: {detail}"
  | .configBounds least greatest =>
    s!"Configuration error: hooks.min_timeout ({least.toNat}) is greater than hooks.max_timeout ({greatest.toNat})"
  | .descriptorsMissing dir => s!"Not found: descriptor directory {dir.text}"
  | .pathNotText => "JSON error: path contains invalid UTF-8 characters"
  | .issues errors warnings => s!"Validation error: {errors} error(s), {warnings} warning(s)."

end Preflight

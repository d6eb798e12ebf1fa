import Preflight.FileTree.Lookup

/-!
# Files that can be read

Where a text can be read there is a file, so no question that is asked about the path
before it is read gets another answer.
-/

set_option autoImplicit false

namespace Preflight

namespace FileTree

variable {t : FileTree} {p : Path} {text : String}

/-- Where a text is read there is a file with it. -/
theorem find?_of_readText (h : t.readText p = .ok text) : t.find? p = some (.file (some text)) := by
  unfold readText at h
  unfold find?
  cases hlocate : t.locate p with
  | error e =>
    rw [hlocate] at h
    cases h
  | ok place =>
    simp only [hlocate] at h
    dsimp only
    split at h <;> cases h
    assumption

/-- Where a text is read there is a file. -/
theorem isFile_of_readText (h : t.readText p = .ok text) : t.isFile p = true := by
  rw [isFile, find?_of_readText h]
  rfl

/-- Where a text is read there is something. -/
theorem contains_of_readText (h : t.readText p = .ok text) : t.contains p = true := by
  rw [contains, find?_of_readText h]
  rfl

end FileTree

end Preflight

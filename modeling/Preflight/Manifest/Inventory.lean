import Preflight.FileTree.Lookup

/-!
# Inventories

Which descriptor files a directory holds. Only regular files directly in it
count, and only those whose names have the suffix of descriptors. A file whose
name is no UTF-8 never counts, so the directories that are listed here hold none.
As every directory can be listed, there is an inventory wherever there is a
directory.
-/

set_option autoImplicit false

namespace Preflight

/-- The names of the descriptor files in a directory. -/
structure Inventory where
  dir : Path
  files : Table Unit
deriving Repr, DecidableEq

namespace Inventory

/-- The inventory of a directory with the given names. -/
def ofNames (dir : Path) (names : List String) : Inventory :=
  ⟨dir, Table.ofList (names.map fun name => (name, ()))⟩

/-- The names in increasing order. -/
def names (i : Inventory) : List String :=
  i.files.keys

/-- The number of files. -/
def size (i : Inventory) : Nat :=
  i.files.size

/-- The path of the file with the given name. -/
def pathOf (i : Inventory) (name : String) : Path :=
  i.dir.join ⟨name⟩

/-- Whether a name ends with the suffix of descriptors. -/
def hasSuffix (suffix name : String) : Bool :=
  suffix.toList.isSuffixOf name.toList

/-- The files in a directory whose names have the given suffix. -/
def scan (t : FileTree) (dir : Path) (suffix : String) : Except FileError Inventory :=
  (t.readDirectory dir).map fun names =>
    ofNames dir (names.filter fun name => t.isFile (dir.join ⟨name⟩) && hasSuffix suffix name)

end Inventory

end Preflight

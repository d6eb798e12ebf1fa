import Preflight.Table

/-!
# Files and directories

A tree of files and directories without links. A place in it is the list of
names that leads there from the root. Only the text of a file counts; a file
whose bytes are no UTF-8 has none. Every directory can be listed. Names are
texts; an entry whose name is no UTF-8 can only stand here under what is shown
for it, which is enough for the paths that lead through it.
-/

set_option autoImplicit false

namespace Preflight

/-- A file or a directory. -/
inductive Node where
  | file (text? : Option String)
  | directory (entries : List (String × Node))
deriving Repr, Inhabited

namespace Node

def isDirectory : Node → Bool
  | .directory _ => true
  | .file _ => false

/-- The entries of a directory; a file has none. -/
def entries : Node → List (String × Node)
  | .directory entries => entries
  | .file _ => []

/-- The entry of a directory with the given name. -/
def child? (n : Node) (name : String) : Option Node :=
  (n.entries.find? (·.1 == name)).map Prod.snd

/-- The names in a directory in increasing order, each once. -/
def names (n : Node) : List String :=
  (Table.ofList n.entries).keys

/-- The node to which names lead from here. -/
def descend? : List String → Node → Option Node
  | [], n => some n
  | name :: rest, n => (n.child? name).bind (descend? rest)

/-- The node with another one put at the end of some names. Directories on the way are made as needed; nothing is put below a file. -/
def put (new : Node) : List String → Node → Node
  | [], _ => new
  | _ :: _, .file text? => .file text?
  | name :: rest, .directory entries =>
    let old := (entries.find? (·.1 == name)).map Prod.snd
    .directory ((name, put new rest (old.getD (.directory []))) :: entries.filter (·.1 != name))

/-- The node without what is at the end of some names. -/
def erase : List String → Node → Node
  | [], n => n
  | _, .file text? => .file text?
  | [name], .directory entries => .directory (entries.filter (·.1 != name))
  | name :: rest, .directory entries =>
    .directory (entries.map fun e => if e.1 = name then (name, erase rest e.2) else e)

end Node

/-- A tree of files: the entries of its root directory. -/
structure FileTree where
  entries : List (String × Node)
deriving Inhabited

namespace FileTree

/-- The tree with nothing in its root. -/
def empty : FileTree := ⟨[]⟩

def root (t : FileTree) : Node := .directory t.entries

def node? (t : FileTree) (place : List String) : Option Node :=
  t.root.descend? place

/-- The tree with a node put at a place. -/
def put (t : FileTree) (place : List String) (new : Node) : FileTree :=
  ⟨(Node.put new place t.root).entries⟩

/-- The tree without what is at a place. -/
def erase (t : FileTree) (place : List String) : FileTree :=
  ⟨(t.root.erase place).entries⟩

end FileTree

end Preflight

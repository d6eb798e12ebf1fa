import Preflight.FileTree.Node
import Preflight.Path.Basic

/-!
# Looking paths up

An absolute path is looked up part by part, starting at the root. Every part but
a first one is read in a directory: an empty part and a single dot stay there, two
dots go to the parent, the root being its own, and a name goes into an entry. So a
path that goes on after a file leads nowhere, even if it goes on with nothing but
a separator. A path that is too long leads nowhere. To find the path from the root
to a place, only the paths to the places on the way are looked up, so that what
leads there may be as long as it likes.
-/

set_option autoImplicit false

namespace Preflight

/-- Why a path cannot be looked up or read. -/
inductive FileError where
  | notFound
  | notDirectory
  | isDirectory
  | nameTooLong
  | zeroCharacter
  | notText
deriving Repr, DecidableEq

def FileError.message : FileError → String
  | .notFound => "No such file or directory (os error 2)"
  | .notDirectory => "Not a directory (os error 20)"
  | .isDirectory => "Is a directory (os error 21)"
  | .nameTooLong => "File name too long (os error 36)"
  | .zeroCharacter => "file name contained an unexpected NUL byte"
  | .notText => "stream did not contain valid UTF-8"

namespace FileTree

/-- The most bytes of the name of an entry. -/
def maxNameBytes : Nat := 255

def maxPathBytes : Nat := 4095

/-- Go from a place to the next by one part of a path. -/
def step (t : FileTree) (place : List String) (part : String) : Except FileError (List String) :=
  match t.node? place with
  | none => .error .notFound
  | some (.file _) => .error .notDirectory
  | some directory =>
    match Path.Step.ofPart? part with
    | none => .ok place
    | some .up => .ok place.dropLast
    | some (.into name) =>
      if maxNameBytes < name.utf8ByteSize then .error .nameTooLong
      else if (directory.child? name).isSome then .ok (place ++ [name])
      else .error .notFound

/-- Go from a place by one part of a path after the other. -/
def walk (t : FileTree) (place : List String) (parts : List String) :
    Except FileError (List String) :=
  parts.foldlM t.step place

/-- Why a relative path leads nowhere: it has to be joined to a directory first, and its first name may be
too long for any. -/
def relativeError (p : Path) : FileError :=
  match p.steps.head? with
  | some (.into name) => if maxNameBytes < name.utf8ByteSize then .nameTooLong else .notFound
  | _ => .notFound

/-- The place to which a path leads. -/
def locate (t : FileTree) (p : Path) : Except FileError (List String) :=
  if p.text.toList.contains '\x00' then .error .zeroCharacter
  else if maxPathBytes < p.text.utf8ByteSize then .error .nameTooLong
  else if p.isAbsolute then t.walk [] p.parts
  else .error (relativeError p)

/-- The node to which a path leads. -/
def find? (t : FileTree) (p : Path) : Option Node :=
  match t.locate p with
  | .ok place => t.node? place
  | .error _ => none

/-- Whether a path leads anywhere. -/
def contains (t : FileTree) (p : Path) : Bool :=
  (t.find? p).isSome

def isFile (t : FileTree) (p : Path) : Bool :=
  (t.find? p).any (!·.isDirectory)

def isDirectory (t : FileTree) (p : Path) : Bool :=
  (t.find? p).any Node.isDirectory

def readText (t : FileTree) (p : Path) : Except FileError String :=
  match t.locate p with
  | .error e => .error e
  | .ok place =>
    match t.node? place with
    | none => .error .notFound
    | some (.directory _) => .error .isDirectory
    | some (.file none) => .error .notText
    | some (.file (some text)) => .ok text

/-- The names in the directory to which a path leads, in increasing order. -/
def readDirectory (t : FileTree) (p : Path) : Except FileError (List String) :=
  match t.locate p with
  | .error e => .error e
  | .ok place =>
    match t.node? place with
    | none => .error .notFound
    | some (.file _) => .error .notDirectory
    | some directory => .ok directory.names

/-- The path from the root to a place. -/
def pathTo (place : List String) : Path :=
  ⟨"/" ++ "/".intercalate place⟩

/-- Go from a place to the next by one part of a path, looking the path to the next place up. -/
def approach (t : FileTree) (place : List String) (part : String) :
    Except FileError (List String) :=
  match Path.Step.ofPart? part with
  | some (.into name) =>
    if maxPathBytes < (pathTo (place ++ [name])).text.utf8ByteSize then .error .nameTooLong
    else t.step place part
  | _ => t.step place part

/-- The path from the root to the place to which a path leads. -/
def canonical (t : FileTree) (p : Path) : Except FileError Path :=
  if p.text.toList.contains '\x00' then .error .zeroCharacter
  else if p.isAbsolute then (p.parts.foldlM t.approach []).map pathTo
  else .error (relativeError p)

end FileTree

end Preflight

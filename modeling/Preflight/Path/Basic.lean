/-!
# Paths

A path is kept as it was written. What it means is a list of steps from the root
or from where the reader stands: into a named entry, or up to the parent. Parts
that are empty or a single dot are no steps.
-/

set_option autoImplicit false

namespace Preflight

/-- The text of a path. -/
structure Path where
  text : String
deriving Repr, DecidableEq, Inhabited

namespace Path

instance : ToString Path := ⟨Path.text⟩

/-- One step of a path. -/
inductive Step where
  | up
  | into (name : String)
deriving Repr, DecidableEq

/-- The step that a part of a path denotes, if it denotes one. -/
def Step.ofPart? (part : String) : Option Step :=
  if part = "" ∨ part = "." then none
  else if part = ".." then some .up
  else some (.into part)

def Step.text : Step → String
  | .up => ".."
  | .into name => name

/-- Whether a path starts at the root. -/
def isAbsolute (p : Path) : Bool :=
  p.text.toList.head? == some '/'

/-- The texts between the separators of a path. -/
def parts (p : Path) : List String :=
  (p.text.toList.splitOn '/').map String.ofList

def steps (p : Path) : List Step :=
  p.parts.filterMap Step.ofPart?

def ofSteps (absolute : Bool) (steps : List Step) : Path :=
  ⟨(if absolute then "/" else "") ++ "/".intercalate (steps.map Step.text)⟩

/-- The path `q` as seen from `p`: `q` itself if it starts at the root. -/
def join (p q : Path) : Path :=
  if q.isAbsolute then q
  else if p.text.isEmpty || p.text.toList.getLast? == some '/' then ⟨p.text ++ q.text⟩
  else ⟨p.text ++ "/" ++ q.text⟩

/-- The name of the entry that a path leads to, if its last step goes into one. -/
def fileName? (p : Path) : Option String :=
  match p.steps.getLast? with
  | some (.into name) => some name
  | _ => none

/-- One more step on a stack of steps, the last one first. A step up takes the last step back, whatever it was; if there is none, it stays. -/
def push : List Step → Step → List Step
  | [], .up => [.up]
  | _ :: stack, .up => stack
  | stack, .into name => .into name :: stack

/-- Fold the steps up into the steps before them. -/
def foldSteps (steps : List Step) : List Step :=
  (steps.foldl push []).reverse

/-- The path without empty and single-dot parts and with its steps up folded, without a look at any file. -/
def clean (p : Path) : Path :=
  ofSteps p.isAbsolute (foldSteps p.steps)

end Path

/-- Write both styles of separators as `/`. -/
def normalizeSeparators (text : String) : String :=
  String.ofList (text.toList.map fun c => if c = '\\' then '/' else c)

end Preflight

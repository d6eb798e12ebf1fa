import Preflight.CommandLine.Lookups

/-!
# The program

Reads what a run needs from the disk and from the environment, and writes what it
results in. Files are read as the run asks for them: as long as it looks at paths
that are not known yet, these are read and the run starts again.
-/

set_option autoImplicit false

namespace Preflight.Main

open Preflight.CommandLine

def readText? (path : Path) : IO (Option String) := do
  try
    return String.fromUTF8? (← IO.FS.readBinFile path.text)
  catch _ =>
    return none

/-- The tree with a directory and the kinds of its entries, or with a file, put at a place. -/
def readPlace (t : FileTree) (place : List String) : IO FileTree := do
  let path := FileTree.pathTo place
  try
    let found ← IO.FS.realPath path.text
    if ← found.isDir then
      let mut t := if (t.node? place).isSome then t else t.put place (.directory [])
      for entry in ← found.readDir do
        let inside := place ++ [entry.fileName]
        if (t.node? inside).isNone then
          let node := if ← entry.path.isDir then Node.directory [] else Node.file none
          if ← entry.path.pathExists then
            t := t.put inside node
      return t
    else
      return t.put place (.file (← readText? path))
  catch _ =>
    return t

/-- The tree with what is at a place on the way to another one. -/
def passPlace (t : FileTree) (place : List String) : IO FileTree := do
  if (t.node? place).isSome then return t
  try
    let found ← IO.FS.realPath (FileTree.pathTo place).text
    return t.put place (if ← found.isDir then .directory [] else .file none)
  catch _ =>
    return t

def readPath (t : FileTree) (path : Path) : IO FileTree := do
  let mut t := t
  let mut place : List String := []
  for step in path.steps do
    place := match step with
      | .up => place.dropLast
      | .into name => place ++ [name]
    t ← passPlace t place
  readPlace t place

def readVariables : IO (Table String) := do
  let text := (← readText? ⟨"/proc/self/environ"⟩).getD ""
  let bindings := (text.toList.splitOn '\x00').map fun binding =>
    (String.ofList (binding.takeWhile (· != '=')), String.ofList ((binding.dropWhile (· != '=')).drop 1))
  return Table.ofList (bindings.filter fun binding => binding.1 != "")

/-- How often a run starts again at most. -/
def maxRounds : Nat := 8

/-- The environment with the files that a request looks at. -/
def readFiles (env : Environment) (request : Request) : IO Environment := do
  let mut env := env
  let mut known : List String := []
  for _ in [0:maxRounds] do
    let unknown := ((lookups env request).map Path.text).filter (!known.contains ·)
    if unknown.isEmpty then break
    for path in unknown do
      env := { env with files := ← readPath env.files ⟨path⟩ }
    known := known ++ unknown
  return env

/-- The home directory that the variables name. Who has none there may have one in the system's list of users,
which is not read here. -/
def home? (vars : Table String) : Option Path :=
  match vars.find? "HOME" with
  | some home => if home.isEmpty then none else some ⟨home⟩
  | none => none

def result (arguments : List String) (vars : Table String) : IO Result := do
  match Request.ofArguments arguments with
  | .error stop => return stop.result
  | .ok request =>
    -- Names that are no texts do not come through the file operations, so all paths here are texts.
    let env : Environment :=
      { files := .empty
        vars := vars
        home? := home? vars
        workingDirectory := ⟨(← IO.currentDir).toString⟩
        screen := ← (← IO.getStdout).isTty
        isText := fun _ => true }
    return respond (← readFiles env request) request

end Preflight.Main

/-- Run the program. -/
def main (arguments : List String) : IO UInt32 := do
  let vars ← Preflight.Main.readVariables
  let result ← Preflight.Main.result arguments vars
  let start ← IO.monoMsNow
  IO.print result.output
  -- There is no clock for the lines of the log; they tell the time since the machine was started.
  IO.eprint (result.errorStream (.ofVariables vars fun _ => toString start))
  return UInt32.ofNat result.status

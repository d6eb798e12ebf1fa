import Preflight.Agents.Batch
import Preflight.Hooks.Source

/-!
# Arguments of the command line

Arguments are options and the name of a command. Some options belong to every
command and may stand before or after its name, others only after it. An option
with a value takes it from the next argument or from the text after an equals
sign. A wrong argument ends reading, and so does a request for the version or for
help.
-/

set_option autoImplicit false

namespace Preflight.CommandLine

/-! ### Options -/

/-- An option of the command line. -/
inductive Flag where
  | root
  | config
  | format
  | verbose
  | dir
  | manifest
  | noManifest
  | globally
  | inProject
  | help
  | version
deriving Repr, DecidableEq

namespace Flag

/-- The name of an option, without the hyphens before it. -/
def name : Flag → String
  | .root => "root"
  | .config => "config"
  | .format => "format"
  | .verbose => "verbose"
  | .dir => "dir"
  | .manifest => "manifest"
  | .noManifest => "no-manifest"
  | .globally => "global"
  | .inProject => "project"
  | .help => "help"
  | .version => "version"

def letter? : Flag → Option Char
  | .verbose => some 'v'
  | .help => some 'h'
  | .version => some 'V'
  | _ => none

def hasValue : Flag → Bool
  | .root | .config | .format | .dir | .manifest => true
  | _ => false

/-- Whether a text can be the value of an option. -/
def accepts (flag : Flag) (value : String) : Bool :=
  match flag with
  | .format => value == "text" || value == "json"
  | _ => value != ""

/-- The options of every command. -/
def shared : List Flag := [.root, .config, .format, .verbose, .help]

end Flag

/-- The name of a command. -/
inductive CommandName where
  | agents
  | hooks
  | all
  | config
deriving Repr, DecidableEq

namespace CommandName

def ofText? : String → Option CommandName
  | "agents" => some .agents
  | "hooks" => some .hooks
  | "all" => some .all
  | "config" => some .config
  | _ => none

/-- The options that may follow the name of a command. -/
def flags : CommandName → List Flag
  | .agents => Flag.shared ++ [.dir, .manifest, .noManifest]
  | .hooks => Flag.shared ++ [.globally, .inProject]
  | .all => Flag.shared
  | .config => Flag.shared

end CommandName

/-- What is wrong with the arguments. -/
inductive UsageError where
  | unknownOption (argument : String)
  | repeatedOption (flag : Flag)
  | missingValue (flag : Flag)
  | unexpectedValue (flag : Flag)
  | badValue (flag : Flag) (value : String)
  | conflict (first second : Flag)
  | unexpectedArgument (argument : String)
  | unknownCommand (name : String)
  | missingCommand
deriving Repr, DecidableEq

def UsageError.message : UsageError → String
  | .unknownOption argument => s!"unknown option '{argument}'"
  | .repeatedOption flag => s!"option '--{flag.name}' is given more than once"
  | .missingValue flag => s!"option '--{flag.name}' needs a value"
  | .unexpectedValue flag => s!"option '--{flag.name}' has no value"
  | .badValue flag value => s!"'{value}' is no value of option '--{flag.name}'"
  | .conflict first second => s!"options '--{first.name}' and '--{second.name}' exclude each other"
  | .unexpectedArgument argument => s!"unexpected argument '{argument}'"
  | .unknownCommand name => s!"unknown command '{name}'"
  | .missingCommand => "a command is missing"

/-- Why reading the arguments ends before a command is known. -/
inductive Stop where
  | usage (error : UsageError)
  | help
  | version
deriving Repr, DecidableEq

/-! ### Reading options -/

/-- The options that were given, each with its value; options without a value have an empty one. -/
abbrev Given := List (Flag × String)

/-- Whether an option was given. -/
def Given.has (given : Given) (flag : Flag) : Bool :=
  given.any (·.1 == flag)

def Given.value? (given : Given) (flag : Flag) : Option String :=
  (given.find? (·.1 == flag)).map Prod.snd

/-- The options given so far with one more. -/
def give (given : Given) (flag : Flag) (value : String) : Except Stop Given :=
  if flag = .help then .error .help
  else if flag = .version then .error .version
  else if flag.hasValue && !flag.accepts value then .error (.usage (.badValue flag value))
  else if given.has flag then .error (.usage (.repeatedOption flag))
  else .ok (given ++ [(flag, value)])

/-- The options that the letters of one argument give. -/
def readLetters (known : List Flag) (argument : String) : Given → List Char → Except Stop Given
  | given, [] => .ok given
  | given, c :: rest =>
    match known.find? (·.letter? == some c) with
    | none => .error (.usage (.unknownOption argument))
    | some flag => do readLetters known argument (← give given flag "") rest

/-- Whether an argument can be the value of the option before it: it is no option itself. -/
def canBeValue (argument : String) : Bool :=
  argument == "-" || argument.toList.head? != some '-'

/-- The name of an option and the value after its equals sign, if it has one. -/
def splitOption (option : List Char) : String × Option String :=
  let name := String.ofList (option.takeWhile (· != '='))
  match option.dropWhile (· != '=') with
  | [] => (name, none)
  | _ :: value => (name, some (String.ofList value))

/-- Read options up to the first argument that is none; returned are the options and the arguments from there on. -/
def readOptions (known : List Flag) : Given → List String → Except Stop (Given × List String)
  | given, [] => .ok (given, [])
  | given, argument :: rest =>
    match argument.toList with
    | ['-', '-'] =>
      match rest with
      | [] => .ok (given, [])
      | next :: _ => .error (.usage (.unexpectedArgument next))
    | '-' :: '-' :: option =>
      let (name, attached) := splitOption option
      match known.find? (·.name == name) with
      | none => .error (.usage (.unknownOption argument))
      | some flag =>
        if flag.hasValue then
          match attached, rest with
          | some value, rest => do readOptions known (← give given flag value) rest
          | none, value :: rest =>
            if canBeValue value then do readOptions known (← give given flag value) rest
            else .error (.usage (.missingValue flag))
          | none, [] => .error (.usage (.missingValue flag))
        else if attached.isSome then .error (.usage (.unexpectedValue flag))
        else do readOptions known (← give given flag "") rest
    | '-' :: c :: letters => do
      readOptions known (← readLetters known argument given (c :: letters)) rest
    | _ => .ok (given, argument :: rest)

/-! ### Requests -/

/-- The form in which a report is written. -/
inductive Format where
  | text
  | json
deriving Repr, DecidableEq

/-- What is to be done. -/
inductive Task where
  | agents (options : Agents.Options)
  | hooks (selection : Hooks.Selection)
  | all
  | config
deriving Repr, DecidableEq

/-- What a command line asks for. -/
structure Request where
  root : Option Path
  config : Option Path
  format : Format
  verbose : Bool
  task : Task
deriving Repr, DecidableEq

def Given.path? (given : Given) (flag : Flag) : Option Path :=
  (given.value? flag).map Path.mk

/-- What a command with its options means. -/
def Task.ofGiven (command : CommandName) (given : Given) : Except Stop Task :=
  match command with
  | .agents =>
    if given.has .manifest && given.has .noManifest then
      .error (.usage (.conflict .manifest .noManifest))
    else .ok (.agents ⟨given.path? .dir, given.path? .manifest, given.has .noManifest⟩)
  | .hooks => .ok (.hooks ⟨given.has .globally, given.has .inProject⟩)
  | .all => .ok .all
  | .config => .ok .config

/-- The request of a command; of an option before and after its name the latter counts. -/
def Request.ofGiven (before after : Given) (task : Task) : Request :=
  let given : Given := after ++ before
  { root := given.path? .root
    config := given.path? .config
    format := if given.value? .format = some "json" then .json else .text
    verbose := given.has .verbose
    task := task }

/-- What the arguments after `help` ask for: help in general, on a command, or on `help` itself. No command
has commands of its own, so a second argument is none. -/
def Stop.ofHelp : List String → Stop
  | [] => .help
  | name :: rest =>
    if name ≠ "help" ∧ CommandName.ofText? name = none then .usage (.unknownCommand name)
    else
      match rest with
      | [] => .help
      | next :: _ => .usage (.unknownCommand next)

def Request.ofArguments (arguments : List String) : Except Stop Request := do
  match ← readOptions (Flag.shared ++ [.version]) [] arguments with
  | (_, []) => .error (.usage .missingCommand)
  | (before, name :: rest) =>
    match CommandName.ofText? name with
    | none => .error (if name = "help" then .ofHelp rest else .usage (.unknownCommand name))
    | some command =>
      match ← readOptions command.flags [] rest with
      | (_, argument :: _) => .error (.usage (.unexpectedArgument argument))
      | (after, []) => return Request.ofGiven before after (← Task.ofGiven command after)

end Preflight.CommandLine

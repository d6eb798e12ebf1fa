import Preflight.CommandLine.Arguments

/-!
# Command lines apart from how a report is written

The options that are given before and after the name of a command decide what is
asked for. The format and the verbosity among them only decide how the answer is
written: without them, the root, the configuration file and the task of a request
are the same (`request_eq_of_alike`).
-/

set_option autoImplicit false

namespace Preflight.CommandLine

namespace Given

/-- Whether an option is about more than how a report is written. -/
def isAsked (option : Flag × String) : Bool :=
  option.1 != .format && option.1 != .verbose

/-- The options that are about more than how a report is written. -/
def asked (given : Given) : Given :=
  given.filter isAsked

/-- Leaving out format and verbosity does not change what is found of another option. -/
theorem find?_asked (given : Given) {flag : Flag} (hflag : flag ≠ .format ∧ flag ≠ .verbose) :
    given.asked.find? (·.1 == flag) = given.find? (·.1 == flag) := by
  unfold asked
  rw [List.find?_filter]
  congr 1
  funext option
  by_cases h : option.1 = flag
  · simp [isAsked, h, hflag.1, hflag.2]
  · simp [h]

/-- Leaving out format and verbosity does not change the path that another option names. -/
theorem path?_asked (given : Given) {flag : Flag} (hflag : flag ≠ .format ∧ flag ≠ .verbose) :
    given.asked.path? flag = given.path? flag := by
  unfold path? value?
  rw [find?_asked given hflag]

/-- Leaving out format and verbosity does not change whether another option is given. -/
theorem has_asked (given : Given) {flag : Flag} (hflag : flag ≠ .format ∧ flag ≠ .verbose) :
    given.asked.has flag = given.has flag := by
  unfold has
  rw [← List.isSome_find?, ← List.isSome_find?, find?_asked given hflag]

/-- Leaving out format and verbosity works on each part of the options on its own. -/
theorem asked_append (after before : Given) : asked (after ++ before) = asked after ++ asked before :=
  List.filter_append ..

end Given

/-- What arguments say: the options before the name of a command, the command, and the options after
it. -/
structure Line where
  before : Given
  command : CommandName
  after : Given
deriving Repr, DecidableEq

namespace Line

/-- The command line that arguments are. -/
def ofArguments (arguments : List String) : Except Stop Line := do
  match ← readOptions (Flag.shared ++ [.version]) [] arguments with
  | (_, []) => .error (.usage .missingCommand)
  | (before, name :: rest) =>
    match CommandName.ofText? name with
    | none => .error (if name = "help" then .ofHelp rest else .usage (.unknownCommand name))
    | some command =>
      match ← readOptions command.flags [] rest with
      | (_, argument :: _) => .error (.usage (.unexpectedArgument argument))
      | (after, []) => return ⟨before, command, after⟩

/-- The request of a command line. -/
def request (l : Line) : Except Stop Request :=
  (Task.ofGiven l.command l.after).map (Request.ofGiven l.before l.after)

/-- The lines differ at most in how a report is to be written. -/
structure Alike (l l' : Line) : Prop where
  before : l.before.asked = l'.before.asked
  command : l.command = l'.command
  after : l.after.asked = l'.after.asked

end Line

/-- Arguments that can be read are a command line first, and its request then. -/
theorem Request.ofArguments_eq (arguments : List String) :
    Request.ofArguments arguments = Line.ofArguments arguments >>= Line.request := by
  unfold Request.ofArguments Line.ofArguments
  cases readOptions (Flag.shared ++ [.version]) [] arguments with
  | error stop => rfl
  | ok read =>
    obtain ⟨before, rest⟩ := read
    cases rest with
    | nil => rfl
    | cons name rest =>
      simp only [bind, Except.bind]
      cases CommandName.ofText? name with
      | none => rfl
      | some command =>
        dsimp only
        cases readOptions command.flags [] rest with
        | error stop => rfl
        | ok read =>
          obtain ⟨after, rest⟩ := read
          cases rest with
          | nil =>
            dsimp only [Line.request, pure, Except.pure]
            cases Task.ofGiven command after <;> rfl
          | cons argument rest => rfl

/-- The requests differ at most in how a report is to be written. -/
structure Request.Alike (r r' : Request) : Prop where
  root : r.root = r'.root
  config : r.config = r'.config
  task : r.task = r'.task

/-- Format and verbosity have no part in the task. -/
theorem Task.ofGiven_asked (command : CommandName) (given : Given) :
    Task.ofGiven command given.asked = Task.ofGiven command given := by
  have hhas : ∀ flag, flag ≠ .format ∧ flag ≠ .verbose → given.asked.has flag = given.has flag :=
    fun _ => given.has_asked
  have hpath : ∀ flag, flag ≠ .format ∧ flag ≠ .verbose →
      given.asked.path? flag = given.path? flag := fun _ => given.path?_asked
  unfold Task.ofGiven
  cases command with
  | agents =>
    rw [hhas .manifest (by decide), hhas .noManifest (by decide), hpath .dir (by decide),
      hpath .manifest (by decide)]
  | hooks => rw [hhas .globally (by decide), hhas .inProject (by decide)]
  | all => rfl
  | config => rfl

/-- Lines that are alike ask for the same, or are refused for the same reason. -/
theorem request_eq_of_alike {l l' : Line} (h : l.Alike l') :
    (∃ stop, l.request = .error stop ∧ l'.request = .error stop) ∨
      ∃ r r', l.request = .ok r ∧ l'.request = .ok r' ∧ r.Alike r' := by
  have htask : Task.ofGiven l.command l.after = Task.ofGiven l'.command l'.after := by
    rw [← Task.ofGiven_asked l.command l.after, ← Task.ofGiven_asked l'.command l'.after, h.after,
      h.command]
  have hgiven : (l.after ++ l.before : Given).asked = (l'.after ++ l'.before : Given).asked := by
    rw [Given.asked_append, Given.asked_append, h.after, h.before]
  unfold Line.request
  rw [← htask]
  cases Task.ofGiven l.command l.after with
  | error stop => exact .inl ⟨stop, rfl, rfl⟩
  | ok task =>
    have hpath : ∀ flag, flag ≠ .format ∧ flag ≠ .verbose →
        (l.after ++ l.before : Given).path? flag = (l'.after ++ l'.before : Given).path? flag := by
      intro flag hflag
      rw [← Given.path?_asked _ hflag, hgiven, Given.path?_asked _ hflag]
    exact .inr ⟨_, _, rfl, rfl, hpath .root (by decide), hpath .config (by decide), rfl⟩

end Preflight.CommandLine

import Preflight.Hooks.Settings
import Preflight.Proofs.Bindings
import Preflight.Proofs.Diagnostic.Errors

/-!
# Which settings are accepted

Settings are accepted if checking them gives no error; warnings and notes do not
count. Level by level, from the fields of an action up to the document, a check is
free of errors exactly if the part has the shape and the values that its level asks
for and all its parts are accepted (`hasErrors_checkSettings_iff`). Nothing about
matchers is asked for.
-/

set_option autoImplicit false

namespace Preflight.Hooks

open Preflight.Command
open Preflight.Json (Value)

namespace Checker

/-! ### What is asked for -/

/-- The type of an action must be one of those that are allowed. -/
def AcceptsType (c : Checker) (type : Option Value) : Prop :=
  ∃ name, type = some (.string name) ∧ name ∈ c.rules.actionTypes

/-- A command must be a text, and if it names a script, that must be a file. -/
def AcceptsCommand (c : Checker) (command : Option Value) : Prop :=
  ∃ text, command = some (.string text) ∧
    ((∃ reason, Invocation.ofCommand text c.rules.interpreters = .obscure reason) ∨
      ∃ script, (Invocation.ofCommand text c.rules.interpreters).scriptPath? = some script ∧
        c.files.isFile (c.resolver.resolve script) = true)

/-- A timeout may be absent; otherwise it must be a number between the bounds. -/
def AcceptsTimeout (c : Checker) (timeout : Option Value) : Prop :=
  timeout = none ∨ ∃ n, timeout = some (.number n) ∧
    (ofBound c.rules.minTimeout).le n.toBinary64 = true ∧
    n.toBinary64.le (ofBound c.rules.maxTimeout) = true

/-- An action must be an object with a type, a command and perhaps a timeout. -/
def AcceptsAction (c : Checker) (action : Value) : Prop :=
  ∃ members, action.members? = some members ∧ c.AcceptsType (members.find? "type") ∧
    c.AcceptsCommand (members.find? "command") ∧ c.AcceptsTimeout (members.find? "timeout")

/-- An entry must be an object with a list of actions. -/
def AcceptsEntry (c : Checker) (entry : Value) : Prop :=
  ∃ members actions, entry.members? = some members ∧
    members.find? "hooks" = some (.array actions) ∧ ∀ action ∈ actions, c.AcceptsAction action

/-- A lifecycle must be known and have a list of entries. -/
def AcceptsLifecycle (c : Checker) (name : String) (value : Value) : Prop :=
  name ∈ c.rules.lifecycles ∧
    ∃ entries, value = .array entries ∧ ∀ entry ∈ entries, c.AcceptsEntry entry

/-- Settings must be an object whose hooks are an object of lifecycles. -/
def AcceptsSettings (c : Checker) (settings : Value) : Prop :=
  ∃ members hooks lifecycles, settings.members? = some members ∧
    members.find? "hooks" = some hooks ∧ hooks.members? = some lifecycles ∧
    ∀ name value, lifecycles.find? name = some value → c.AcceptsLifecycle name value

/-! ### Fields of an action -/

variable (c : Checker) (location : Location)

/-- The check of a type finds no error exactly in the types that are accepted. -/
theorem any_typeIssue?_iff (type : Option Value) :
    (c.typeIssue? type location).any Diagnostic.isError = false ↔ c.AcceptsType type := by
  cases type with
  | none => simp [typeIssue?, AcceptsType]
  | some value =>
    cases value with
    | string name =>
      by_cases hname : name ∈ c.rules.actionTypes
      · simp [typeIssue?, AcceptsType, HookRules.isActionType, hname]
      · simp [typeIssue?, AcceptsType, HookRules.isActionType, hname]
    | _ => simp [typeIssue?, AcceptsType]

/-- The check of a script finds no error exactly if the script leads to a file. -/
theorem any_scriptIssue?_iff (script : String) :
    (c.scriptIssue? script location).any Diagnostic.isError = false ↔
      c.files.isFile (c.resolver.resolve script) = true := by
  simp only [scriptIssue?]
  cases c.files.isFile (c.resolver.resolve script) <;> simp

/-- The check of a command finds no error exactly in the commands that are accepted. -/
theorem any_commandIssue?_iff (command : Option Value) :
    (c.commandIssue? command location).any Diagnostic.isError = false ↔
      c.AcceptsCommand command := by
  cases command with
  | none => simp [commandIssue?, AcceptsCommand]
  | some value =>
    cases value with
    | string text =>
      simp only [commandIssue?, shellIssue?, AcceptsCommand, Option.some.injEq, Value.string.injEq,
        exists_eq_left']
      cases hcommand : Invocation.ofCommand text c.rules.interpreters with
      | obscure reason => simp
      | interpreted interpreter script args =>
        rw [any_scriptIssue?_iff]
        simp [Invocation.scriptPath?]
      | script script =>
        rw [any_scriptIssue?_iff]
        simp [Invocation.scriptPath?]
    | _ => simp [commandIssue?, AcceptsCommand]

/-- The check of a timeout finds no error exactly in the timeouts that are accepted. -/
theorem any_timeoutIssue?_iff (lifecycle : String) (timeout : Option Value) :
    (timeoutIssue? c.rules lifecycle timeout location).any Diagnostic.isError = false ↔
      c.AcceptsTimeout timeout := by
  cases timeout with
  | none => simp [timeoutIssue?, AcceptsTimeout]
  | some value =>
    cases value with
    | number n =>
      simp only [timeoutIssue?, secondsIssue?, AcceptsTimeout, reduceCtorEq, false_or,
        Option.some.injEq, Value.number.injEq, exists_eq_left']
      rw [← Bool.and_eq_true, ← isAllowed]
      cases isAllowed c.rules n.toBinary64 with
      | false => simp
      | true =>
        -- whatever is recommended, it is only a warning
        rw [if_pos rfl]
        split
        · simp
        · split <;> simp
    | _ => simp [timeoutIssue?, AcceptsTimeout]

/-! ### Actions, entries and lifecycles -/

/-- An action has no errors exactly if it is accepted. -/
theorem hasErrors_checkAction_iff (lifecycle : String) (action : Value) :
    (c.checkAction lifecycle location action).hasErrors = false ↔ c.AcceptsAction action := by
  rw [checkAction, AcceptsAction]
  cases hmembers : action.members? with
  | none => simp
  | some members =>
    simp only [Option.some.injEq, exists_eq_left', Outcome.hasErrors, List.any_append,
      Bool.or_eq_false_iff, and_assoc]
    rw [← any_typeIssue?_iff c location, ← any_commandIssue?_iff c location,
      ← any_timeoutIssue?_iff c location lifecycle]
    simp only [Outcome.any_toList]

/-- What is said about a matcher is never an error. -/
theorem any_matcherIssue? (matcher : Option Value) :
    (matcherIssue? matcher location).any Diagnostic.isError = false := by
  cases matcher with
  | none => rfl
  | some value =>
    cases value with
    | string text =>
      simp only [matcherIssue?]
      split <;> simp
    | _ => simp [matcherIssue?]

/-- An entry has no errors exactly if it is accepted. -/
theorem hasErrors_checkEntry_iff (lifecycle : String) (entry : Value) :
    (c.checkEntry lifecycle location entry).hasErrors = false ↔ c.AcceptsEntry entry := by
  rw [checkEntry, AcceptsEntry]
  cases hmembers : entry.members? with
  | none => simp
  | some members =>
    rw [Outcome.hasErrors_append, Outcome.hasErrors_ofOption, any_matcherIssue?, Bool.false_or]
    cases hhooks : members.find? "hooks" with
    | none => simp [checkActions, hhooks]
    | some value =>
      cases value with
      | array actions =>
        have hactions := Outcome.hasErrors_concat_zipIdx_eq_false_iff actions
          (fun action i => c.checkAction lifecycle (location.atAction i) action)
          fun action i => hasErrors_checkAction_iff c (location.atAction i) lifecycle action
        rw [checkActions, hactions]
        simp [hhooks]
      | _ => simp [checkActions, hhooks]

/-- A lifecycle has no errors exactly if it is accepted. -/
theorem hasErrors_checkLifecycle_iff (label lifecycle : String) (value : Value) :
    (c.checkLifecycle label lifecycle value).2.hasErrors = false ↔
      c.AcceptsLifecycle lifecycle value := by
  simp only [checkLifecycle, AcceptsLifecycle, HookRules.isLifecycle, List.contains_iff_mem]
  by_cases hknown : lifecycle ∈ c.rules.lifecycles
  · rw [if_pos hknown]
    cases value with
    | array entries =>
      have hentries := Outcome.hasErrors_concat_zipIdx_eq_false_iff entries
        (fun entry i => c.checkEntry lifecycle
          (((Location.ofSource label).inScope lifecycle).atEntry i) entry)
        fun entry i => hasErrors_checkEntry_iff c _ lifecycle entry
      have hcheck : (c.checkEntries lifecycle ((Location.ofSource label).inScope lifecycle)
          entries).hasErrors = false ↔ ∀ entry ∈ entries, c.AcceptsEntry entry := hentries
      simp [hknown, hcheck]
    | _ => simp
  · simp only [hknown, if_false]
    simp

/-! ### Settings -/

/-- Lifecycles have no errors exactly if each of them is accepted. -/
theorem hasErrors_checkLifecycles_iff (label : String) (lifecycles : Table Value) :
    (c.checkLifecycles label lifecycles).outcome.hasErrors = false ↔
      ∀ name value, lifecycles.find? name = some value → c.AcceptsLifecycle name value := by
  rw [checkLifecycles, Outcome.hasErrors_concat_eq_false_iff, List.map_map, List.forall_mem_map]
  constructor
  · intro h name value hfind
    have hentry := h (name, value) ((lifecycles.mem_entries_iff name value).2 hfind)
    exact (hasErrors_checkLifecycle_iff c label name value).1 hentry
  · intro h e he
    have hfind := (lifecycles.mem_entries_iff e.1 e.2).1 he
    exact (hasErrors_checkLifecycle_iff c label e.1 e.2).2 (h e.1 e.2 hfind)

/-- **Which settings are accepted.** Checking settings gives no error exactly if every part of them
is accepted, and an entry has the verdict that it has without its matchers. -/
theorem hasErrors_checkSettings_iff (label : String) (settings : Value) :
    ((c.checkSettings label settings).outcome.hasErrors = false ↔ c.AcceptsSettings settings) ∧
      ∀ (lifecycle : String) (location : Location) (members : List (String × Value)),
        (c.checkEntry lifecycle location (.object members)).hasErrors =
          (c.checkEntry lifecycle location
            (.object (members.filter fun m => m.1 != "matcher"))).hasErrors := by
  constructor
  · rw [checkSettings, AcceptsSettings]
    cases hmembers : settings.members? with
    | none => simp [SourceReport.ofOutcome]
    | some members =>
      cases hhooks : members.find? "hooks" with
      | none => simp [SourceReport.ofOutcome, hhooks]
      | some hooks =>
        cases hlifecycles : hooks.members? with
        | none => simp [SourceReport.ofOutcome, hhooks, hlifecycles]
        | some lifecycles =>
          simp only [hhooks, hlifecycles, hasErrors_checkLifecycles_iff, Option.some.injEq,
            exists_and_left, exists_eq_left']
  · intro lifecycle location members
    have hactions : (Table.ofList (members.filter fun m => m.1 != "matcher")).find? "hooks" =
        (Table.ofList members).find? "hooks" :=
      Table.find?_ofList_filter (fun name => name != "matcher") (by decide) members
    rw [← Bool.not_inj_iff, Bool.eq_iff_iff, Bool.not_eq_true', Bool.not_eq_true',
      hasErrors_checkEntry_iff, hasErrors_checkEntry_iff, AcceptsEntry, AcceptsEntry]
    simp only [Value.members?, Option.some.injEq, exists_and_left, exists_eq_left', hactions]

end Checker

end Preflight.Hooks

import Preflight.Proofs.Hooks.Acceptance
import Preflight.Proofs.Hooks.Locations
import Preflight.Proofs.Report.Advice

/-!
# What settings are faulted for

The faults of settings for which there is advice, each with the phrase under which the
advice is kept. Checking settings with such a fault gives an error whose message holds
the phrase (`complains_of_settingsFault`), whatever the names, paths and numbers in the
message are. An entry with something else than a list for its actions is not among these
faults: it gives an error too, but one for which there is no advice
(`exists_error_of_wrongActions`).
-/

set_option autoImplicit false

namespace Preflight.Hooks.Checker

open Preflight.Command
open Preflight.Json (Value)
open Preflight.Text (occurs occurs_append_left occurs_append_right)

/-- What an action is faulted for, with the phrase of the advice. -/
inductive ActionFault (c : Checker) (action : Value) : String → Prop
  /-- The command names a script, and there is no such file. -/
  | script {command script : String} : action.member? "command" = some (.string command) →
    (Invocation.ofCommand command c.rules.interpreters).scriptPath? = some script →
    c.files.isFile (c.resolver.resolve script) = false → ActionFault c action "script file not found"
  /-- There is a timeout, but it is no number between the bounds. -/
  | timeout : ¬c.AcceptsTimeout (action.member? "timeout") → ActionFault c action "timeout"

/-- What settings are faulted for, with the phrase of the advice. -/
inductive SettingsFault (c : Checker) (settings : Value) : String → Prop
  /-- The settings are an object without hooks. -/
  | noHooks {members : Table Value} : settings.members? = some members →
    members.find? "hooks" = none → SettingsFault c settings "missing top-level 'hooks' key"
  /-- A lifecycle is none of those that are known. -/
  | lifecycle {lifecycle : String} : lifecycle ∈ lifecycleNames settings →
    c.rules.isLifecycle lifecycle = false → SettingsFault c settings "unknown lifecycle"
  /-- An entry of a known lifecycle has no actions. -/
  | noActions {lifecycle : String} {entry : Value} {members : Table Value} :
    c.rules.isLifecycle lifecycle = true → entry ∈ entriesOf settings lifecycle →
    entry.members? = some members → members.find? "hooks" = none →
    SettingsFault c settings "'hooks' action list"
  /-- An entry of a known lifecycle has an action that is faulted. -/
  | action {lifecycle phrase : String} {entry action : Value} :
    c.rules.isLifecycle lifecycle = true → entry ∈ entriesOf settings lifecycle →
    action ∈ actionsOf entry → ActionFault c action phrase → SettingsFault c settings phrase

variable {c : Checker} {phrase : String}

/-! ### Actions -/

/-- A script that leads to no file is reported as not found. -/
theorem complains_scriptIssue? {script : String}
    (h : c.files.isFile (c.resolver.resolve script) = false) (location : Location) :
    (Outcome.ofOption (c.scriptIssue? script location)).Complains "script file not found" := by
  unfold scriptIssue?
  simp only [h, Bool.false_eq_true, if_false]
  exact Outcome.complains_ofOption rfl (occurs_append_left (by decide +kernel) _)

/-- A timeout that is not accepted is there, and a message about it starts by naming it. -/
theorem complains_timeoutIssue? {timeout : Option Value} (h : ¬c.AcceptsTimeout timeout)
    (lifecycle : String) (location : Location) :
    (Outcome.ofOption (timeoutIssue? c.rules lifecycle timeout location)).Complains "timeout" := by
  cases timeout with
  | none => exact absurd (.inl rfl) h
  | some value =>
    cases value with
    | number n =>
      have hallowed : isAllowed c.rules n.toBinary64 = false := by
        rw [← Bool.not_eq_true]
        intro hallowed
        exact h (.inr ⟨n, rfl, Bool.and_eq_true_iff.1 hallowed⟩)
      simp only [timeoutIssue?, secondsIssue?, hallowed, Bool.false_eq_true, if_false]
      refine Outcome.complains_ofOption rfl ?_
      simp only [String.append_assoc]
      exact occurs_append_left (by decide +kernel) _
    | _ => exact Outcome.complains_ofOption rfl (occurs_append_left (by decide +kernel) _)

/-- A fault of an action is reported by its phrase. -/
theorem complains_of_actionFault {action : Value} (h : c.ActionFault action phrase)
    (lifecycle : String) (location : Location) :
    (c.checkAction lifecycle location action).Complains phrase := by
  cases h with
  | @script command script hcommand hscript hfile =>
    obtain ⟨members, hmembers, hfind⟩ := Option.bind_eq_some_iff.1 hcommand
    have hissue : c.commandIssue? (members.find? "command") location =
        c.scriptIssue? script (location.atField "command") := by
      rw [hfind]
      unfold commandIssue? shellIssue?
      dsimp only
      cases hinvocation : Invocation.ofCommand command c.rules.interpreters with
      | obscure reason =>
        rw [hinvocation] at hscript
        cases hscript
      | interpreted interpreter path args =>
        rw [hinvocation] at hscript
        cases hscript
        rfl
      | script path =>
        rw [hinvocation] at hscript
        cases hscript
        rfl
    have hcomplains := complains_scriptIssue? hfile (location.atField "command")
    rw [← hissue] at hcomplains
    simp only [checkAction, hmembers]
    exact (hcomplains.append_right (.ofOption _)).append_left (.ofOption _)
  | timeout htimeout =>
    cases hmembers : action.members? with
    | none =>
      refine absurd (.inl ?_) htimeout
      rw [Value.member?, hmembers]
      rfl
    | some members =>
      rw [Value.member?, hmembers, Option.bind_some] at htimeout
      have hcomplains := complains_timeoutIssue? htimeout lifecycle location
      simp only [checkAction, hmembers]
      exact hcomplains.append_right _

/-! ### Entries and lifecycles -/

/-- What is said about an action is said about its entry. -/
theorem complains_checkEntry_of_action {entry action : Value} (haction : action ∈ actionsOf entry)
    (h : c.ActionFault action phrase) (lifecycle : String) (location : Location) :
    (c.checkEntry lifecycle location entry).Complains phrase := by
  unfold actionsOf at haction
  cases hhooks : entry.member? "hooks" with
  | none =>
    rw [hhooks] at haction
    cases haction
  | some hooks =>
    obtain ⟨members, hmembers, hfind⟩ := Option.bind_eq_some_iff.1 hhooks
    rw [hhooks] at haction
    cases hooks with
    | array actions =>
      have hactions : (c.checkActions lifecycle location (some (.array actions))).Complains phrase :=
        Outcome.complains_concat_zipIdx haction
          (fun action i => c.checkAction lifecycle (location.atAction i) action)
          fun i => complains_of_actionFault h lifecycle (location.atAction i)
      simp only [checkEntry, hmembers, hfind]
      exact hactions.append_right _
    | _ => cases haction

/-- An entry without a list of actions is reported as such. -/
theorem complains_checkEntry_of_noActions {entry : Value} {members : Table Value}
    (hmembers : entry.members? = some members) (hfind : members.find? "hooks" = none)
    (lifecycle : String) (location : Location) :
    (c.checkEntry lifecycle location entry).Complains "'hooks' action list" := by
  simp only [checkEntry, hmembers, hfind]
  exact (Outcome.complains_single (by decide +kernel)).append_right _

/-- What is said about a lifecycle is said about the settings. -/
theorem mem_checkSettings_of_lifecycle {settings value : Value} {lifecycles : Table Value}
    {label lifecycle : String} {d : Diagnostic} (hlifecycles : lifecycles? settings = some lifecycles)
    (hfind : lifecycles.find? lifecycle = some value)
    (hd : d ∈ (c.checkLifecycle label lifecycle value).2.diagnostics) :
    d ∈ (c.checkSettings label settings).outcome.diagnostics := by
  rw [c.checkSettings_of_lifecycles? hlifecycles label]
  refine List.mem_flatMap_of_mem ?_ hd
  rw [List.map_map]
  exact List.mem_map.2 ⟨(lifecycle, value), (lifecycles.mem_entries_iff _ _).2 hfind, rfl⟩

/-- What is said about an entry of a known lifecycle is said about the settings. -/
theorem mem_checkSettings_of_entry {settings entry : Value} {label lifecycle : String} {i : Nat}
    {d : Diagnostic} (hknown : c.rules.isLifecycle lifecycle = true)
    (hentry : (entriesOf settings lifecycle)[i]? = some entry)
    (hd : d ∈ (c.checkEntry lifecycle (entryPlace label lifecycle i) entry).diagnostics) :
    d ∈ (c.checkSettings label settings).outcome.diagnostics := by
  unfold entriesOf at hentry
  cases hlifecycles : lifecycles? settings with
  | none =>
    rw [hlifecycles] at hentry
    cases hentry
  | some lifecycles =>
    rw [hlifecycles, Option.bind_some] at hentry
    cases hfind : lifecycles.find? lifecycle with
    | none =>
      rw [hfind] at hentry
      cases hentry
    | some value =>
      rw [hfind] at hentry
      refine mem_checkSettings_of_lifecycle hlifecycles hfind ?_
      cases value with
      | array entries =>
        simp only [checkLifecycle, hknown, if_true]
        exact Outcome.mem_concat_zipIdx
          (fun entry i => c.checkEntry lifecycle (entryPlace label lifecycle i) entry) hentry hd
      | _ => cases hentry

/-- What is said about an entry of a known lifecycle, wherever it stands, is said about the settings. -/
theorem complains_checkSettings_of_entry {settings entry : Value} {lifecycle : String}
    (hknown : c.rules.isLifecycle lifecycle = true) (hentry : entry ∈ entriesOf settings lifecycle)
    (label : String) (h : ∀ location, (c.checkEntry lifecycle location entry).Complains phrase) :
    (c.checkSettings label settings).outcome.Complains phrase := by
  obtain ⟨i, hget⟩ := List.mem_iff_getElem?.1 hentry
  exact (h (entryPlace label lifecycle i)).mono fun _ hd => mem_checkSettings_of_entry hknown hget hd

/-! ### Settings -/

/-- A fault of settings is reported by its phrase. -/
theorem complains_of_settingsFault {settings : Value} (h : c.SettingsFault settings phrase)
    (label : String) : (c.checkSettings label settings).outcome.Complains phrase := by
  cases h with
  | noHooks hmembers hfind =>
    simp only [checkSettings, hmembers, hfind]
    exact Outcome.complains_single (by decide +kernel)
  | @lifecycle lifecycle hname hunknown =>
    unfold lifecycleNames at hname
    cases hlifecycles : lifecycles? settings with
    | none =>
      rw [hlifecycles] at hname
      cases hname
    | some lifecycles =>
      rw [hlifecycles] at hname
      obtain ⟨value, hfind⟩ := (lifecycles.mem_keys_iff lifecycle).1 hname
      have hcomplains : (c.checkLifecycle label lifecycle value).2.Complains "unknown lifecycle" := by
        simp only [checkLifecycle, hunknown, Bool.false_eq_true, if_false]
        refine Outcome.complains_single ?_
        simp only [String.append_assoc]
        exact occurs_append_left (by decide +kernel) _
      exact hcomplains.mono fun _ hd => mem_checkSettings_of_lifecycle hlifecycles hfind hd
  | noActions hknown hentry hmembers hfind =>
    exact complains_checkSettings_of_entry hknown hentry label
      (complains_checkEntry_of_noActions hmembers hfind _)
  | action hknown hentry haction hfault =>
    exact complains_checkSettings_of_entry hknown hentry label
      (complains_checkEntry_of_action haction hfault _)

/-- For actions that are no list there is no advice, although there is an error. -/
theorem exists_error_of_wrongActions {settings entry value : Value} {lifecycle : String} {i : Nat}
    (hknown : c.rules.isLifecycle lifecycle = true)
    (hentry : (entriesOf settings lifecycle)[i]? = some entry)
    (hhooks : entry.member? "hooks" = some value) (hvalue : ∀ actions, value ≠ .array actions)
    (label : String) :
    ∃ d ∈ (c.checkSettings label settings).outcome.diagnostics, d.isError = true ∧
      d.location = (entryPlace label lifecycle i).atField "hooks" ∧
      ∀ a ∈ Advice.table, a.appliesTo d = false := by
  obtain ⟨members, hmembers, hfind⟩ := Option.bind_eq_some_iff.1 hhooks
  have hsaid : ∀ d, d ∈ (c.checkActions lifecycle (entryPlace label lifecycle i)
      (some value)).diagnostics → d ∈ (c.checkSettings label settings).outcome.diagnostics := by
    intro d hd
    apply mem_checkSettings_of_entry hknown hentry
    simp only [checkEntry, hmembers, hfind]
    exact List.mem_append_right _ hd
  have hadvice : ∀ name ∈ ["null", "boolean", "number", "string", "object"],
      Advice.table.all (fun a => !occurs a.phrase.toList
        (s!"'hooks' must be a list of actions, found {name}").toList) = true := by
    decide +kernel
  have hname : value.typeName ∈ ["null", "boolean", "number", "string", "object"] := by
    cases value with
    | array actions => exact absurd rfl (hvalue actions)
    | _ => simp [Value.typeName]
  refine ⟨.error .structural s!"'hooks' must be a list of actions, found {value.typeName}"
    ((entryPlace label lifecycle i).atField "hooks"), hsaid _ ?_, rfl, rfl, ?_⟩
  · cases value with
    | array actions => exact absurd rfl (hvalue actions)
    | _ => exact List.mem_singleton_self _
  · intro a ha
    have hphrase := List.all_eq_true.1 (hadvice _ hname) a ha
    rwa [Bool.not_eq_true'] at hphrase

end Preflight.Hooks.Checker

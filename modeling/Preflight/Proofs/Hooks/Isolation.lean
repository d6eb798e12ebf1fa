import Mathlib.Data.List.Basic
import Preflight.Hooks.Source
import Preflight.Proofs.Bindings
import Preflight.Proofs.Diagnostic.Places

/-!
# Faults in hook settings stay where they are

What is said about an entry points to the entry, and what is said about an action
points to the action (`within_checkEntry`, `within_checkAction`). So if two settings
differ in one entry of one lifecycle only, or in one action of one entry only, their
reports differ in what points there and in nothing else: neither what is said about
the other parts nor its order, nor what is counted.

The number of hook entries is read off the settings themselves: it is the number of
entries of all known lifecycles that have a list, whatever is wrong with the entries.
-/

set_option autoImplicit false

namespace Preflight.Hooks

open Preflight.Json (Value)

/-! ### What is checked -/

/-- The lifecycles of settings and their values; other settings are not looked into. -/
def lifecycles? (settings : Value) : Option (Table Value) :=
  (settings.member? "hooks").bind Value.members?

/-- The items of a list; other values have none. -/
def listItems : Value → List Value
  | .array items => items
  | _ => []

/-- Settings that differ in one entry of one lifecycle: its list has another value in this place, and
all other lifecycles have the same values. -/
def DifferInEntry (lifecycle : String) (i : Nat) (settings settings' : Value) : Prop :=
  ∃ lifecycles entries entry, lifecycles? settings = some lifecycles ∧
    lifecycles.find? lifecycle = some (.array entries) ∧
    lifecycles? settings' = some (lifecycles.insert lifecycle (.array (entries.set i entry)))

/-- Settings that differ in one action of one entry: the entry has the same members but for one element
of its list of actions, and all other entries and lifecycles are the same. -/
def DifferInAction (lifecycle : String) (i j : Nat) (settings settings' : Value) : Prop :=
  ∃ lifecycles entries entry entry' members actions action,
    lifecycles? settings = some lifecycles ∧
    lifecycles.find? lifecycle = some (.array entries) ∧ entries[i]? = some entry ∧
    entry.members? = some members ∧ members.find? "hooks" = some (.array actions) ∧
    entry'.members? = some (members.insert "hooks" (.array (actions.set j action))) ∧
    lifecycles? settings' = some (lifecycles.insert lifecycle (.array (entries.set i entry')))

/-- Whether a location is in one entry of one lifecycle. -/
def isInEntry (lifecycle : String) (i : Nat) (l : Location) : Bool :=
  l.scope == some lifecycle && l.entry == some i

/-- Whether a location is in one action of one entry. -/
def isInAction (lifecycle : String) (i j : Nat) (l : Location) : Bool :=
  isInEntry lifecycle i l && l.action == some j

/-- Reports with the same diagnostics in the same order, those in some places left out, and the same counts. -/
structure SourceReport.AgreeOutside (place : Location → Bool) (r r' : SourceReport) : Prop where
  diagnostics : r.outcome.diagnostics.filter (fun d => !place d.location) =
    r'.outcome.diagnostics.filter fun d => !place d.location
  lifecycles : r.lifecycles = r'.lifecycles
  hooks : r.hooks = r'.hooks

namespace Checker

variable (c : Checker)

/-- The number of entries of the known lifecycles that have a list. -/
def countEntries (settings : Value) : Nat :=
  let known := ((lifecycles? settings).elim [] Table.entries).filter fun e => c.rules.isLifecycle e.1
  (known.map fun e => (listItems e.2).length).foldr (· + ·) 0

/-- The settings in a file, if there is one that can be read. -/
def settings? (path : Path) : Option Value :=
  (c.files.readText path).toOption.bind fun text => (Value.ofText text).toOption

/-! ### What is said about an action points to it -/

section

variable {location : Location}

/-- A complaint about a type is at its field. -/
theorem isAt_typeIssue? (type : Option Value) :
    ∀ d ∈ c.typeIssue? type location, d.location.IsAt (location.atField "type") := by
  intro d hd
  unfold typeIssue? at hd
  split at hd
  · cases hd
    rfl
  · split at hd
    · cases hd
    · cases hd
      rfl
  · cases hd
    rfl

/-- A complaint about a script is where the command is. -/
theorem isAt_scriptIssue? (script : String) :
    ∀ d ∈ c.scriptIssue? script location, d.location.IsAt location := by
  intro d hd
  simp only [scriptIssue?] at hd
  split at hd
  · cases hd
  · cases hd
    rfl

/-- A complaint about a shell command is where the command is. -/
theorem isAt_shellIssue? (command : String) :
    ∀ d ∈ c.shellIssue? command location, d.location.IsAt location := by
  intro d hd
  unfold shellIssue? at hd
  split at hd
  · cases hd
    rfl
  · exact c.isAt_scriptIssue? _ d hd
  · exact c.isAt_scriptIssue? _ d hd

/-- A complaint about a command is at its field. -/
theorem isAt_commandIssue? (command : Option Value) :
    ∀ d ∈ c.commandIssue? command location, d.location.IsAt (location.atField "command") := by
  intro d hd
  unfold commandIssue? at hd
  split at hd
  · cases hd
    rfl
  · exact c.isAt_shellIssue? _ d hd
  · cases hd
    rfl

/-- A complaint about a number of seconds is where the number is. -/
theorem isAt_secondsIssue? (rules : HookRules) (lifecycle : String) (n : Json.Number) :
    ∀ d ∈ secondsIssue? rules lifecycle n location, d.location.IsAt location := by
  intro d hd
  simp only [secondsIssue?] at hd
  split at hd
  · split at hd
    · cases hd
    · split at hd
      · cases hd
        rfl
      · cases hd
  · cases hd
    rfl

/-- A complaint about a timeout is at its field. -/
theorem isAt_timeoutIssue? (rules : HookRules) (lifecycle : String) (timeout : Option Value) :
    ∀ d ∈ timeoutIssue? rules lifecycle timeout location,
      d.location.IsAt (location.atField "timeout") := by
  intro d hd
  unfold timeoutIssue? at hd
  split at hd
  · cases hd
    rfl
  · exact isAt_secondsIssue? rules lifecycle _ d hd
  · cases hd
    rfl

/-- What points to a field of a place points into the place. -/
theorem within_ofOption_of_isAt {issue : Option Diagnostic} {field : String}
    (h : ∀ d ∈ issue, d.location.IsAt (location.atField field)) :
    (Outcome.ofOption issue).Within location :=
  Outcome.within_ofOption fun d hd => (h d hd).within.trans (Location.within_atField location field)

/-- What is said about an action is within it. -/
theorem within_checkAction (lifecycle : String) (action : Value) :
    (c.checkAction lifecycle location action).Within location := by
  unfold checkAction
  cases action.members? with
  | none => exact Outcome.within_single (Location.within_self location)
  | some members =>
    have htype : (Outcome.ofOption (c.typeIssue? (members.find? "type") location)).Within location :=
      within_ofOption_of_isAt (c.isAt_typeIssue? _)
    have hcommand :
        (Outcome.ofOption (c.commandIssue? (members.find? "command") location)).Within location :=
      within_ofOption_of_isAt (c.isAt_commandIssue? _)
    have htimeout : (Outcome.ofOption (timeoutIssue? c.rules lifecycle (members.find? "timeout")
        location)).Within location :=
      within_ofOption_of_isAt (isAt_timeoutIssue? c.rules lifecycle _)
    exact Outcome.within_append (Outcome.within_append htype hcommand) htimeout

/-! ### What is said about an entry points to it -/

/-- A complaint about a matcher is at its field. -/
theorem isAt_matcherIssue? (matcher : Option Value) :
    ∀ d ∈ matcherIssue? matcher location, d.location.IsAt (location.atField "matcher") := by
  intro d hd
  unfold matcherIssue? at hd
  split at hd
  · cases hd
  · split at hd
    · cases hd
    · cases hd
      rfl
  · cases hd
    rfl

/-- What is said about the actions of an entry is within the entry. -/
theorem within_checkActions (hlocation : location.action = none) (lifecycle : String)
    (actions : Option Value) :
    (c.checkActions lifecycle location actions).Within location := by
  have hfield := Location.within_atField location "hooks"
  unfold checkActions
  split
  · exact Outcome.within_single hfield
  · intro d hd
    obtain ⟨j, action, -, hdo⟩ := Outcome.exists_of_mem_concat_zipIdx
      (fun action j => c.checkAction lifecycle (location.atAction j) action) hd
    exact Location.within_of_atAction hlocation (c.within_checkAction lifecycle action d hdo)
  · exact Outcome.within_single hfield

/-- What is said about an entry is within it. -/
theorem within_checkEntry (hlocation : location.action = none) (lifecycle : String) (entry : Value) :
    (c.checkEntry lifecycle location entry).Within location := by
  unfold checkEntry
  cases entry.members? with
  | none => exact Outcome.within_single (Location.within_self location)
  | some members =>
    have hmatcher :
        (Outcome.ofOption (matcherIssue? (members.find? "matcher") location)).Within location :=
      within_ofOption_of_isAt (isAt_matcherIssue? _)
    exact Outcome.within_append hmatcher
      (c.within_checkActions hlocation lifecycle (members.find? "hooks"))

end

/-! ### Changing one entry -/

/-- The place of an entry. -/
def entryPlace (label lifecycle : String) (i : Nat) : Location :=
  ((Location.ofSource label).inScope lifecycle).atEntry i

/-- A location within the place of an entry is in the entry. -/
theorem isInEntry_of_within {label lifecycle : String} {i : Nat} {l : Location}
    (h : l.Within (entryPlace label lifecycle i)) : isInEntry lifecycle i l = true := by
  have hscope := h.scope lifecycle rfl
  have hentry := h.entry i rfl
  simp [isInEntry, hscope, hentry]

/-- A location within the place of an action is in the action. -/
theorem isInAction_of_within {label lifecycle : String} {i j : Nat} {l : Location}
    (h : l.Within ((entryPlace label lifecycle i).atAction j)) : isInAction lifecycle i j l = true := by
  have hentry := isInEntry_of_within (Location.within_of_atAction rfl h)
  have haction := h.action j rfl
  simp [isInAction, hentry, haction]

/-- Nothing is left of an outcome within a place if the locations in this place are left out. -/
theorem filter_eq_nil_of_within {o : Outcome} {place : Location} {p : Location → Bool}
    (ho : o.Within place) (hp : ∀ l : Location, l.Within place → p l = true) :
    o.diagnostics.filter (fun d => !p d.location) = [] := by
  rw [List.filter_eq_nil_iff]
  intro d hd
  simp [hp d.location (ho d hd)]

/-- With another element of a list of actions, an entry gives the same diagnostics outside this action. -/
theorem filter_checkEntry_action {label lifecycle : String} {i j : Nat} {entry entry' action : Value}
    {members : Table Value} {actions : List Value} (hmembers : entry.members? = some members)
    (hactions : members.find? "hooks" = some (.array actions))
    (hmembers' : entry'.members? = some (members.insert "hooks" (.array (actions.set j action)))) :
    (c.checkEntry lifecycle (entryPlace label lifecycle i) entry').diagnostics.filter
        (fun d => !isInAction lifecycle i j d.location) =
      (c.checkEntry lifecycle (entryPlace label lifecycle i) entry).diagnostics.filter
        fun d => !isInAction lifecycle i j d.location := by
  have hmatcher : (members.insert "hooks" (.array (actions.set j action))).find? "matcher" =
      members.find? "matcher" := by
    rw [Table.find?_insert, if_neg (by decide)]
  have hnew : (members.insert "hooks" (.array (actions.set j action))).find? "hooks" =
      some (.array (actions.set j action)) := by
    rw [Table.find?_insert, if_pos rfl]
  have hchecked : ∀ a : Value, (c.checkAction lifecycle
      ((entryPlace label lifecycle i).atAction j) a).diagnostics.filter
        (fun d => !isInAction lifecycle i j d.location) = [] := by
    intro a
    exact filter_eq_nil_of_within (c.within_checkAction lifecycle a)
      fun l hl => isInAction_of_within hl
  have hlist := Outcome.filter_concat_zipIdx_set
    (fun a k => c.checkAction lifecycle ((entryPlace label lifecycle i).atAction k) a)
    (fun d => !isInAction lifecycle i j d.location) actions j action (by
      intro old _
      rw [hchecked action, hchecked old])
  simp only [checkEntry, hmembers, hmembers', hmatcher, hnew, hactions, checkActions,
    Outcome.diagnostics_append, List.filter_append]
  rw [hlist]

/-! ### The lifecycles of settings -/

/-- Settings with lifecycles are checked as these are. -/
theorem checkSettings_of_lifecycles? {settings : Value} {lifecycles : Table Value}
    (h : lifecycles? settings = some lifecycles) (label : String) :
    c.checkSettings label settings = c.checkLifecycles label lifecycles := by
  obtain ⟨hooks, hhooks, hlifecycles⟩ := Option.bind_eq_some_iff.1 h
  obtain ⟨members, hmembers, hfind⟩ := Option.bind_eq_some_iff.1 hhooks
  simp only [checkSettings, hmembers, hfind, hlifecycles]

/-- Settings without lifecycles are reported once, in no scope. -/
theorem checkSettings_of_none {settings : Value} (h : lifecycles? settings = none) (label : String) :
    ∃ d : Diagnostic, c.checkSettings label settings = .ofOutcome label (.single d) ∧
      d.location.scope = none ∧ d.location.entry = none ∧ d.location.action = none := by
  unfold checkSettings
  cases hmembers : settings.members? with
  | none => exact ⟨_, rfl, rfl, rfl, rfl⟩
  | some members =>
    cases hfind : members.find? "hooks" with
    | none =>
      simp only [hfind]
      exact ⟨_, rfl, rfl, rfl, rfl⟩
    | some hooks =>
      cases hlifecycles : hooks.members? with
      | none =>
        simp only [hfind, hlifecycles]
        exact ⟨_, rfl, rfl, rfl, rfl⟩
      | some lifecycles =>
        simp [lifecycles?, Value.member?, hmembers, hfind, hlifecycles] at h

/-- With another list in one lifecycle that has as many entries, a report agrees outside a place if
what is said about the two lists does. -/
theorem agreeOutside_insert {lifecycles : Table Value} {lifecycle : String}
    {entries entries' : List Value} (place : Location → Bool) (label : String)
    (hfind : lifecycles.find? lifecycle = some (.array entries))
    (hlength : entries'.length = entries.length)
    (hentries : (c.checkEntries lifecycle ((Location.ofSource label).inScope lifecycle)
        entries').diagnostics.filter (fun d => !place d.location) =
      (c.checkEntries lifecycle ((Location.ofSource label).inScope lifecycle)
        entries).diagnostics.filter fun d => !place d.location) :
    (c.checkLifecycles label lifecycles).AgreeOutside place
      (c.checkLifecycles label (lifecycles.insert lifecycle (.array entries'))) := by
  have hnew := Table.entries_insert_of_find? hfind (.array entries')
  have hold : ∀ e ∈ lifecycles.entries, e.1 = lifecycle → e.2 = .array entries := by
    intro e he hname
    have hbound := (lifecycles.mem_entries_iff e.1 e.2).1 he
    rw [hname, hfind] at hbound
    exact (Option.some.inj hbound).symm
  -- the entry of the lifecycle in the old table and in the new one
  have hcount : ∀ e ∈ lifecycles.entries,
      (c.checkLifecycle label (if e.1 = lifecycle then (lifecycle, Value.array entries') else e).1
        (if e.1 = lifecycle then (lifecycle, Value.array entries') else e).2).1 =
      (c.checkLifecycle label e.1 e.2).1 := by
    intro e he
    by_cases hname : e.1 = lifecycle
    · rw [if_pos hname, hold e he hname, hname]
      simp only [checkLifecycle, hlength]
      split <;> rfl
    · rw [if_neg hname]
  have hsaid : ∀ e ∈ lifecycles.entries,
      (c.checkLifecycle label (if e.1 = lifecycle then (lifecycle, Value.array entries') else e).1
        (if e.1 = lifecycle then (lifecycle, Value.array entries') else e).2).2.diagnostics.filter
          (fun d => !place d.location) =
      (c.checkLifecycle label e.1 e.2).2.diagnostics.filter fun d => !place d.location := by
    intro e he
    by_cases hname : e.1 = lifecycle
    · rw [if_pos hname, hold e he hname, hname]
      simp only [checkLifecycle]
      split
      · exact hentries
      · rfl
    · rw [if_neg hname]
  have hlifecycles : (c.checkLifecycles label lifecycles).lifecycles =
      (c.checkLifecycles label (lifecycles.insert lifecycle (.array entries'))).lifecycles := by
    simp only [checkLifecycles, hnew, List.map_map, List.filterMap_map]
    apply List.filterMap_congr
    intro e he
    exact (hcount e he).symm
  refine ⟨?_, hlifecycles, ?_⟩
  · simp only [checkLifecycles, hnew, List.map_map]
    rw [Outcome.filter_concat_map, Outcome.filter_concat_map]
    unfold List.flatMap
    congr 1
    apply List.map_congr_left
    intro e he
    exact (hsaid e he).symm
  · unfold SourceReport.hooks
    rw [hlifecycles]

/-! ### What is counted -/

/-- The number of hooks is the number of entries in known lifecycles. -/
theorem hooks_checkLifecycles (label : String) (lifecycles : Table Value) :
    (c.checkLifecycles label lifecycles).hooks =
      ((lifecycles.entries.filter fun e => c.rules.isLifecycle e.1).map
        fun e => (listItems e.2).length).foldr (· + ·) 0 := by
  have hentries : ∀ l : List (String × Value),
      (((l.map fun e => c.checkLifecycle label e.1 e.2).filterMap Prod.fst).map
        LifecycleCount.entries).foldr (· + ·) 0 =
      ((l.filter fun e => c.rules.isLifecycle e.1).map
        fun e => (listItems e.2).length).foldr (· + ·) 0 := by
    intro l
    induction l with
    | nil => rfl
    | cons e l ih =>
      rw [List.map_cons, List.filterMap_cons, List.filter_cons]
      cases hknown : c.rules.isLifecycle e.1 with
      | false =>
        have hnone : (c.checkLifecycle label e.1 e.2).1 = none := by
          simp [checkLifecycle, hknown]
        simpa only [hnone, Bool.false_eq_true, if_false] using ih
      | true =>
        cases hvalue : e.2 with
        | array entries =>
          have hsome : (c.checkLifecycle label e.1 (.array entries)).1 =
              some ⟨e.1, entries.length⟩ := by
            simp [checkLifecycle, hknown]
          have hlength : (listItems e.2).length = entries.length := by rw [hvalue, listItems]
          simp only [hsome, if_true, List.map_cons, List.foldr_cons, hlength]
          rw [ih]
        | _ =>
          have hnone : (c.checkLifecycle label e.1 e.2).1 = none := by
            simp [checkLifecycle, hknown, hvalue]
          have hlength : (listItems e.2).length = 0 := by
            rw [hvalue]
            rfl
          rw [hvalue] at hnone
          simp only [hnone, if_true, List.map_cons, List.foldr_cons, hlength, Nat.zero_add]
          exact ih
  exact hentries lifecycles.entries

/-- The number of hooks of a settings document is the number of its entries in known lifecycles. -/
theorem hooks_checkSettings (label : String) (settings : Value) :
    (c.checkSettings label settings).hooks = c.countEntries settings := by
  unfold countEntries
  cases h : lifecycles? settings with
  | none =>
    obtain ⟨d, hreport, -⟩ := c.checkSettings_of_none h label
    rw [hreport]
    rfl
  | some lifecycles =>
    rw [c.checkSettings_of_lifecycles? h label, hooks_checkLifecycles]
    rfl

/-- Where there is nothing there are no settings. -/
theorem settings?_eq_none_of_not_contains {path : Path} (h : c.files.contains path = false) :
    c.settings? path = none := by
  unfold FileTree.contains FileTree.find? at h
  unfold settings? FileTree.readText
  cases hlocate : c.files.locate path with
  | error e => rfl
  | ok place =>
    have hnode : c.files.node? place = none := by simpa [hlocate] using h
    simp only [hnode, Except.toOption, Option.bind_none]

/-- The number of hooks of a source is that of its settings, or none if these cannot be read. -/
theorem hooks_checkSource (source : Source) :
    (c.checkSource source).hooks = ((c.settings? source.path).map c.countEntries).getD 0 := by
  unfold checkSource
  cases hcontains : c.files.contains source.path with
  | false =>
    rw [c.settings?_eq_none_of_not_contains hcontains]
    rfl
  | true =>
    unfold settings?
    cases hread : c.files.readText source.path with
    | error e => rfl
    | ok text =>
      cases hparse : Value.ofText text with
      | error failure =>
        simp only [if_true, checkText, hparse, Except.toOption, Option.bind_some, Option.map_none,
          Option.getD_none]
        rfl
      | ok settings =>
        simp only [if_true, checkText, hparse, Except.toOption, Option.bind_some, Option.map_some,
          Option.getD_some]
        exact c.hooks_checkSettings source.label settings

/-! ### Isolation -/

/-- Settings that differ in one entry get the same diagnostics outside of it. -/
theorem agreeOutside_of_differInEntry {lifecycle : String} {i : Nat} {settings settings' : Value}
    (h : DifferInEntry lifecycle i settings settings') (label : String) :
    (c.checkSettings label settings).AgreeOutside (isInEntry lifecycle i)
      (c.checkSettings label settings') := by
  obtain ⟨lifecycles, entries, entry, hold, hfind, hnew⟩ := h
  rw [c.checkSettings_of_lifecycles? hold label, c.checkSettings_of_lifecycles? hnew label]
  have hchecked : ∀ e : Value, (c.checkEntry lifecycle (entryPlace label lifecycle i)
      e).diagnostics.filter (fun d => !isInEntry lifecycle i d.location) = [] := by
    intro e
    exact filter_eq_nil_of_within (c.within_checkEntry rfl lifecycle e)
      fun l hl => isInEntry_of_within hl
  apply c.agreeOutside_insert (isInEntry lifecycle i) label hfind (List.length_set ..)
  apply Outcome.filter_concat_zipIdx_set
    (fun e k => c.checkEntry lifecycle (entryPlace label lifecycle k) e)
  intro old _
  exact (hchecked entry).trans (hchecked old).symm

/-- Settings that differ in one action get the same diagnostics outside of it. -/
theorem agreeOutside_of_differInAction {lifecycle : String} {i j : Nat} {settings settings' : Value}
    (h : DifferInAction lifecycle i j settings settings') (label : String) :
    (c.checkSettings label settings).AgreeOutside (isInAction lifecycle i j)
      (c.checkSettings label settings') := by
  obtain ⟨lifecycles, entries, entry, entry', members, actions, action, hold, hfind, hget, hmembers,
    hactions, hmembers', hnew⟩ := h
  rw [c.checkSettings_of_lifecycles? hold label, c.checkSettings_of_lifecycles? hnew label]
  apply c.agreeOutside_insert (isInAction lifecycle i j) label hfind (List.length_set ..)
  apply Outcome.filter_concat_zipIdx_set
    (fun e k => c.checkEntry lifecycle (entryPlace label lifecycle k) e)
  intro old hgetOld
  have heq : old = entry := Option.some.inj (hgetOld.symm.trans hget)
  rw [heq]
  exact c.filter_checkEntry_action hmembers hactions hmembers'

/-- **Faults stay where they are.** Settings that differ in one entry, or in one action, have the same
report outside it; and the hook entries of any report are those of the known lifecycles with a list,
whether the report is on settings or on a source, which may have none. -/
theorem checkSettings_isolates_faults (label : String) :
    (∀ lifecycle i settings settings', DifferInEntry lifecycle i settings settings' →
      (c.checkSettings label settings).AgreeOutside (isInEntry lifecycle i)
        (c.checkSettings label settings')) ∧
    (∀ lifecycle i j settings settings', DifferInAction lifecycle i j settings settings' →
      (c.checkSettings label settings).AgreeOutside (isInAction lifecycle i j)
        (c.checkSettings label settings')) ∧
    (∀ settings, (c.checkSettings label settings).hooks = c.countEntries settings) ∧
    ∀ source, (c.checkSource source).hooks =
      ((c.settings? source.path).map c.countEntries).getD 0 := by
  refine ⟨?_, ?_, c.hooks_checkSettings label, c.hooks_checkSource⟩
  · intro lifecycle i settings settings' h
    exact c.agreeOutside_of_differInEntry h label
  · intro lifecycle i j settings settings' h
    exact c.agreeOutside_of_differInAction h label

end Checker

/-- Settings of one lifecycle that is known and one that is not. -/
def settingsOf (entries : List Value) : Value :=
  .object [("hooks", .object [("Stop", .array entries), ("Never", .null)])]

/-- An entry with a matcher that looks wrong. -/
def entryOf (actions : List Value) : Value :=
  .object [("matcher", .string "("), ("hooks", .array actions)]

/-- A checker with the default rules for a project without files. -/
def emptyProject : Checker :=
  ⟨.default, .ofBase ⟨"/w"⟩, .empty⟩

/-- The entry that is changed stands beside one that is no object, and so does the action. -/
theorem checkSettings_isolates_neighbours :
    (DifferInEntry "Stop" 1 (settingsOf [.null, .null]) (settingsOf [.null, entryOf [.null]]) ∧
      (emptyProject.checkSettings "project" (settingsOf [.null, .null])).AgreeOutside
        (isInEntry "Stop" 1)
        (emptyProject.checkSettings "project" (settingsOf [.null, entryOf [.null]]))) ∧
    DifferInAction "Stop" 0 1 (settingsOf [entryOf [.null, .null]])
        (settingsOf [entryOf [.null, .object []]]) ∧
      (emptyProject.checkSettings "project" (settingsOf [entryOf [.null, .null]])).AgreeOutside
        (isInAction "Stop" 0 1)
        (emptyProject.checkSettings "project" (settingsOf [entryOf [.null, .object []]])) := by
  have hentry : DifferInEntry "Stop" 1 (settingsOf [.null, .null])
      (settingsOf [.null, entryOf [.null]]) :=
    ⟨.ofList [("Stop", .array [.null, .null]), ("Never", .null)], [.null, .null], entryOf [.null],
      rfl, rfl, rfl⟩
  have haction : DifferInAction "Stop" 0 1 (settingsOf [entryOf [.null, .null]])
      (settingsOf [entryOf [.null, .object []]]) :=
    ⟨.ofList [("Stop", .array [entryOf [.null, .null]]), ("Never", .null)],
      [entryOf [.null, .null]], entryOf [.null, .null], entryOf [.null, .object []],
      .ofList [("matcher", .string "("), ("hooks", .array [.null, .null])], [.null, .null],
      .object [], rfl, rfl, rfl, rfl, rfl, rfl, rfl⟩
  obtain ⟨hentries, hactions, -⟩ := emptyProject.checkSettings_isolates_faults "project"
  exact ⟨⟨hentry, hentries _ _ _ _ hentry⟩, haction, hactions _ _ _ _ _ haction⟩

end Preflight.Hooks

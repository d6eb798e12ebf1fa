import Preflight.Proofs.Hooks.Isolation

/-!
# Diagnostics of hook settings name places that exist

Whatever is said about settings points to a lifecycle, an entry and an action that
the settings have, and no two diagnostics point to the same field of the same place.
Both are shown from the actions up: an action has at most one diagnostic for each
of its fields, the actions of an entry differ in their number, the entries of a
lifecycle in theirs, and the lifecycles in their names.
-/

set_option autoImplicit false

namespace Preflight.Hooks

open Preflight.Json (Value)

/-! ### The places of settings -/

/-- The names under which settings have a value for a lifecycle. -/
def lifecycleNames (settings : Value) : List String :=
  (lifecycles? settings).elim [] Table.keys

/-- The entries of a lifecycle. -/
def entriesOf (settings : Value) (lifecycle : String) : List Value :=
  ((lifecycles? settings).bind (·.find? lifecycle)).elim [] listItems

/-- The actions of an entry. -/
def actionsOf (entry : Value) : List Value :=
  (entry.member? "hooks").elim [] listItems

/-- A location that exists in settings. The number of an entry stands only with the lifecycle, and that
of an action only with the entry. -/
structure IsPlaceIn (settings : Value) (l : Location) : Prop where
  scope : ∀ lifecycle, l.scope = some lifecycle → lifecycle ∈ lifecycleNames settings
  entry : ∀ i, l.entry = some i →
    ∃ lifecycle, l.scope = some lifecycle ∧ i < (entriesOf settings lifecycle).length
  action : ∀ j, l.action = some j →
    ∃ lifecycle i entry, l.scope = some lifecycle ∧ l.entry = some i ∧
      (entriesOf settings lifecycle)[i]? = some entry ∧ j < (actionsOf entry).length

namespace Checker

variable (c : Checker)

/-! ### Actions -/

section

variable {location : Location}

/-- The diagnostics of an action are at different fields. -/
theorem distinct_checkAction (lifecycle : String) (action : Value) :
    (c.checkAction lifecycle location action).Distinct := by
  unfold checkAction
  cases action.members? with
  | none => exact Outcome.distinct_single _
  | some members =>
    have htype : ∀ d ∈ (Outcome.ofOption (c.typeIssue? (members.find? "type") location)).diagnostics,
        d.location.IsAt (location.atField "type") :=
      fun d hd => c.isAt_typeIssue? _ d (Option.mem_toList.1 hd)
    have hcommand : ∀ d ∈ (Outcome.ofOption
        (c.commandIssue? (members.find? "command") location)).diagnostics,
        d.location.IsAt (location.atField "command") :=
      fun d hd => c.isAt_commandIssue? _ d (Option.mem_toList.1 hd)
    have htimeout : ∀ d ∈ (Outcome.ofOption
        (timeoutIssue? c.rules lifecycle (members.find? "timeout") location)).diagnostics,
        d.location.IsAt (location.atField "timeout") :=
      fun d hd => isAt_timeoutIssue? c.rules lifecycle _ d (Option.mem_toList.1 hd)
    have hfirst := Outcome.distinct_append (Outcome.distinct_ofOption _) (Outcome.distinct_ofOption _)
      fun d hd e he => Location.coordinates_ne_of_isAt (by decide) (htype d hd) (hcommand e he)
    refine Outcome.distinct_append hfirst (Outcome.distinct_ofOption _) ?_
    intro d hd e he
    rcases List.mem_append.1 hd with hd | hd
    · exact Location.coordinates_ne_of_isAt (by decide) (htype d hd) (htimeout e he)
    · exact Location.coordinates_ne_of_isAt (by decide) (hcommand d hd) (htimeout e he)

/-! ### Entries -/

/-- What is said about a list of actions names one of them, or else the field of the list. -/
theorem exists_action_of_mem_checkActions {lifecycle : String} {actions : Option Value}
    {d : Diagnostic} (hd : d ∈ (c.checkActions lifecycle location actions).diagnostics) :
    (∃ j < (actions.elim [] listItems).length, d.location.action = some j) ∨
      d.location.IsAt (location.atField "hooks") := by
  unfold checkActions at hd
  split at hd
  · exact .inr (by rw [List.mem_singleton.1 hd]; rfl)
  · next actions =>
    obtain ⟨j, action, hget, hdo⟩ := Outcome.exists_of_mem_concat_zipIdx
      (fun action j => c.checkAction lifecycle (location.atAction j) action) hd
    have hlt : j < actions.length := (List.getElem?_eq_some_iff.1 hget).1
    exact .inl ⟨j, hlt, (c.within_checkAction lifecycle action d hdo).action j rfl⟩
  · exact .inr (by rw [List.mem_singleton.1 hd]; rfl)

/-- The diagnostics of actions are at different places. -/
theorem distinct_checkActions (lifecycle : String) (actions : Option Value) :
    (c.checkActions lifecycle location actions).Distinct := by
  unfold checkActions
  split
  · exact Outcome.distinct_single _
  · next actions =>
    apply Outcome.distinct_concat_zipIdx
      (fun action j => c.checkAction lifecycle (location.atAction j) action) Coordinates.action
    · intro action j
      exact c.distinct_checkAction lifecycle action
    · intro action j d hd
      exact (c.within_checkAction lifecycle action d hd).action j rfl
  · exact Outcome.distinct_single _

/-- The diagnostics of an entry are at different places. -/
theorem distinct_checkEntry (hlocation : location.action = none) (lifecycle : String)
    (entry : Value) : (c.checkEntry lifecycle location entry).Distinct := by
  unfold checkEntry
  cases entry.members? with
  | none => exact Outcome.distinct_single _
  | some members =>
    apply Outcome.distinct_append (Outcome.distinct_ofOption _) (c.distinct_checkActions lifecycle _)
    intro d hd e he
    have hmatcher := isAt_matcherIssue? _ d (Option.mem_toList.1 hd)
    rcases c.exists_action_of_mem_checkActions he with ⟨j, -, haction⟩ | hfield
    · intro heq
      have hnone : e.location.action = none :=
        (congrArg Coordinates.action heq.symm).trans
          (Location.action_eq_none_of_isAt hlocation hmatcher)
      cases haction.symm.trans hnone
    · exact Location.coordinates_ne_of_isAt (by decide) hmatcher hfield

/-- A diagnostic of an entry names one of its actions, if any. -/
theorem action_lt_of_mem_checkEntry (hlocation : location.action = none) {lifecycle : String}
    {entry : Value} {d : Diagnostic} (hd : d ∈ (c.checkEntry lifecycle location entry).diagnostics)
    {j : Nat} (hj : d.location.action = some j) : j < (actionsOf entry).length := by
  have hnone : ∀ {field : String}, ¬d.location.IsAt (location.atField field) := by
    intro field hfield
    cases hj.symm.trans (Location.action_eq_none_of_isAt hlocation hfield)
  unfold checkEntry at hd
  cases hmembers : entry.members? with
  | none =>
    rw [hmembers] at hd
    rw [List.mem_singleton.1 hd] at hj
    cases hlocation.symm.trans hj
  | some members =>
    rw [hmembers] at hd
    rcases List.mem_append.1 hd with hd | hd
    · exact absurd (isAt_matcherIssue? _ d (Option.mem_toList.1 hd)) hnone
    · rcases c.exists_action_of_mem_checkActions hd with ⟨k, hlt, haction⟩ | hfield
      · obtain rfl : k = j := Option.some.inj (haction.symm.trans hj)
        simpa [actionsOf, Value.member?, hmembers] using hlt
      · exact absurd hfield hnone

/-! ### Lifecycles -/

/-- The diagnostics of entries are at different places. -/
theorem distinct_checkEntries (hlocation : location.action = none) (lifecycle : String)
    (entries : List Value) : (c.checkEntries lifecycle location entries).Distinct := by
  have hentry : ∀ i, (location.atEntry i).action = none := fun _ => hlocation
  apply Outcome.distinct_concat_zipIdx
    (fun entry i => c.checkEntry lifecycle (location.atEntry i) entry) Coordinates.entry
  · intro entry i
    exact c.distinct_checkEntry (hentry i) lifecycle entry
  · intro entry i d hd
    exact (c.within_checkEntry (hentry i) lifecycle entry d hd).entry i rfl

end

/-- The diagnostics of a lifecycle are at different places. -/
theorem distinct_checkLifecycle (label lifecycle : String) (value : Value) :
    (c.checkLifecycle label lifecycle value).2.Distinct := by
  unfold checkLifecycle
  split
  · split
    · exact c.distinct_checkEntries rfl lifecycle _
    · exact Outcome.distinct_single _
  · exact Outcome.distinct_single _

/-- What is said about a lifecycle points to it, or into one of its entries and to an action of it. -/
theorem exists_entry_of_mem_checkLifecycle {label lifecycle : String} {value : Value} {d : Diagnostic}
    (hd : d ∈ (c.checkLifecycle label lifecycle value).2.diagnostics) :
    d.location = (Location.ofSource label).inScope lifecycle ∨
      ∃ i entry, (listItems value)[i]? = some entry ∧
        d.location.Within (entryPlace label lifecycle i) ∧
        ∀ j, d.location.action = some j → j < (actionsOf entry).length := by
  unfold checkLifecycle at hd
  split at hd
  · split at hd
    · next entries =>
      obtain ⟨i, entry, hget, hdo⟩ := Outcome.exists_of_mem_concat_zipIdx
        (fun entry i => c.checkEntry lifecycle (entryPlace label lifecycle i) entry) hd
      refine .inr ⟨i, entry, hget, ?_, ?_⟩
      · exact c.within_checkEntry rfl lifecycle entry d hdo
      · intro j hj
        exact c.action_lt_of_mem_checkEntry rfl hdo hj
    · exact .inl (by rw [List.mem_singleton.1 hd]; rfl)
  · exact .inl (by rw [List.mem_singleton.1 hd]; rfl)

/-- The diagnostics of a lifecycle have its name as their scope. -/
theorem scope_eq_of_mem_checkLifecycle {label lifecycle : String} {value : Value} {d : Diagnostic}
    (hd : d ∈ (c.checkLifecycle label lifecycle value).2.diagnostics) :
    d.location.scope = some lifecycle := by
  rcases c.exists_entry_of_mem_checkLifecycle hd with hplace | ⟨i, entry, -, hwithin, -⟩
  · rw [hplace]
    rfl
  · exact hwithin.scope lifecycle rfl

/-- The diagnostics of lifecycles are at different places. -/
theorem distinct_checkLifecycles (label : String) (lifecycles : Table Value) :
    (c.checkLifecycles label lifecycles).outcome.Distinct := by
  have hkeys : (lifecycles.keys.map some).Nodup :=
    List.Nodup.map (fun _ _ => Option.some.inj) lifecycles.keys_nodup
  simp only [checkLifecycles, List.map_map]
  rw [Table.keys, List.map_map] at hkeys
  apply Outcome.distinct_concat_map Coordinates.scope hkeys
  · intro e _
    exact c.distinct_checkLifecycle label e.1 e.2
  · intro e _ d hd
    exact c.scope_eq_of_mem_checkLifecycle hd

/-- A diagnostic of a lifecycle is at a place that the settings have. -/
theorem isPlaceIn_of_mem_checkLifecycle {label lifecycle : String} {settings value : Value}
    {lifecycles : Table Value} (hlifecycles : lifecycles? settings = some lifecycles)
    (hfind : lifecycles.find? lifecycle = some value) {d : Diagnostic}
    (hd : d ∈ (c.checkLifecycle label lifecycle value).2.diagnostics) :
    IsPlaceIn settings d.location := by
  have hscope := c.scope_eq_of_mem_checkLifecycle hd
  have hnames : lifecycle ∈ lifecycleNames settings := by
    rw [lifecycleNames, hlifecycles]
    exact (lifecycles.mem_keys_iff lifecycle).2 ⟨value, hfind⟩
  have hentries : entriesOf settings lifecycle = listItems value := by
    rw [entriesOf, hlifecycles, Option.bind_some, hfind]
    rfl
  have hscopes : ∀ s, d.location.scope = some s → s ∈ lifecycleNames settings := by
    intro s hs
    rw [hscope] at hs
    exact Option.some.inj hs ▸ hnames
  rcases c.exists_entry_of_mem_checkLifecycle hd with hplace | ⟨i, entry, hget, hwithin, haction⟩
  · rw [hplace] at hscopes ⊢
    refine ⟨hscopes, ?_, ?_⟩
    · intro i hi
      cases hi
    · intro j hj
      cases hj
  · have hentry : d.location.entry = some i := hwithin.entry i rfl
    rw [← hentries] at hget
    refine ⟨hscopes, ?_, ?_⟩
    · intro k hk
      obtain rfl : i = k := Option.some.inj (hentry.symm.trans hk)
      exact ⟨lifecycle, hscope, (List.getElem?_eq_some_iff.1 hget).1⟩
    · intro j hj
      exact ⟨lifecycle, i, entry, hscope, hentry, hget, haction j hj⟩

/-- Diagnostics of settings point to different fields of different places, and the places exist. -/
theorem checkSettings_locates (label : String) (settings : Value) :
    ((c.checkSettings label settings).outcome.diagnostics.map fun d => d.location.coordinates).Nodup ∧
    ∀ d ∈ (c.checkSettings label settings).outcome.diagnostics, IsPlaceIn settings d.location := by
  cases h : lifecycles? settings with
  | none =>
    obtain ⟨d, hreport, hscope, hentry, haction⟩ := c.checkSettings_of_none h label
    rw [hreport]
    refine ⟨Outcome.distinct_single d, ?_⟩
    intro e he
    rw [List.mem_singleton.1 he]
    exact ⟨by simp [hscope], by simp [hentry], by simp [haction]⟩
  | some lifecycles =>
    rw [c.checkSettings_of_lifecycles? h label]
    refine ⟨c.distinct_checkLifecycles label lifecycles, ?_⟩
    intro d hd
    obtain ⟨o, ho, hdo⟩ := List.mem_flatMap.1 hd
    rw [List.map_map] at ho
    obtain ⟨⟨lifecycle, value⟩, hmem, rfl⟩ := List.mem_map.1 ho
    exact c.isPlaceIn_of_mem_checkLifecycle h ((lifecycles.mem_entries_iff _ _).1 hmem) hdo

end Checker

/-- Settings whose second entry has an action without a command. -/
def withoutCommand : Value :=
  settingsOf [.null, entryOf [.null, .object [("type", .string "command")]]]

/-- What is said about the command that is missing. -/
def missingCommand : Diagnostic :=
  .error .schema "action is missing 'command'"
    (((Checker.entryPlace "project" "Stop" 1).atAction 1).atField "command")

/-- An action without a command is located by its lifecycle, its entry and its position. -/
theorem checkSettings_locates_missingCommand :
    missingCommand ∈ (emptyProject.checkSettings "project" withoutCommand).outcome.diagnostics ∧
      IsPlaceIn withoutCommand missingCommand.location := by
  have hmem : missingCommand ∈
      (emptyProject.checkSettings "project" withoutCommand).outcome.diagnostics := by
    decide +kernel
  exact ⟨hmem, (emptyProject.checkSettings_locates "project" withoutCommand).2 missingCommand hmem⟩

end Preflight.Hooks

import Preflight.Config.Printer
import Preflight.Proofs.Bindings
import Preflight.Proofs.Config.KnownFields
import Preflight.Proofs.FileTree.Reading
import Preflight.Proofs.Toml.Document

/-!
# Configurations are read back

Loading the text of a configuration gives this configuration, whatever strings and numbers
it holds (`load_toText`). Its text is a document of four tables, the last one inside the one
before (`readDocument_toText`). Every field is there under its own name, so no default takes
the place of an empty list or an empty table (`ofRoot_entries`).
-/

set_option autoImplicit false

namespace Preflight

open Preflight.Toml (Draft IsStatement IsValue Statement Scan Value maxParts)
open Preflight.Toml.Draft (Focus focus_root)

/-! ### Fields -/

/-- The value as which a setting is read. -/
def Setting.value : Setting → Value
  | .text value => .string value
  | .texts values => .array (values.map .string)
  | .number value => .integer value.toNat

/-- What is written for a setting is a value of the format, and the one that the setting stands for. -/
theorem Setting.isValue_write (s : Setting) : IsValue s.write s.value := by
  cases s with
  | text value =>
    obtain ⟨c, tail, hcons, hc⟩ := Toml.exists_write_eq_cons (Toml.Style.choose value.toList) value.toList
    refine ⟨⟨c, tail, hcons, ?_⟩, fun fuel rest hfuel => ?_⟩
    · rcases hc with rfl | rfl <;> rfl
    · obtain ⟨fuel, rfl⟩ := Nat.exists_eq_add_of_le' (Nat.le_trans (Nat.le_add_left 1 _) hfuel)
      exact Toml.value?_writeString value (Toml.startsNot_cons (by decide) _)
        (Toml.startsNot_cons (by decide) _)
  | texts values =>
    refine ⟨?_, fun fuel rest hfuel => ?_⟩
    · match values with
      | [] => exact ⟨_, _, rfl, rfl⟩
      | [_] => exact ⟨_, _, rfl, rfl⟩
      | _ :: _ :: _ => exact ⟨_, _, rfl, rfl⟩
    · refine Toml.value?_writeStrings values ?_ ('\n' :: rest)
      exact Nat.le_trans (Nat.add_le_add_right (Toml.length_le_length_writeStrings values) 3) hfuel
  | number value =>
    obtain ⟨c, tail, hcons, hc⟩ := Toml.exists_writeNat_eq_cons value.toNat
    refine ⟨⟨c, tail, hcons, ?_⟩, fun fuel rest hfuel => ?_⟩
    · exact Toml.isBlank_eq_false_of_isAsciiDigit hc
    · obtain ⟨fuel, rfl⟩ := Nat.exists_eq_add_of_le' (Nat.le_trans (Nat.le_add_left 1 _) hfuel)
      exact Toml.value?_writeNat value.toNat_lt rest

/-- No setting holds a number that is too large. -/
theorem Setting.isRepresentable_value (s : Setting) : s.value.isRepresentable = true := by
  cases s with
  | text value => rfl
  | number value => rfl
  | texts values =>
    rw [value, Value.isRepresentable]
    induction values with
    | nil => rfl
    | cons text values ih => rw [List.map_cons, Toml.areRepresentable, ih]; rfl

/-! ### Tables -/

/-- The values of fields. -/
def fieldValues (fields : List (String × Setting)) : List (String × Value) :=
  fields.map fun f => (f.1, f.2.value)

/-- The statements of a table, each with its text. -/
def tableParts (path : List String) (name : String) (fields : List (String × Setting)) :
    List (List Char × Statement) :=
  ('[' :: Toml.writeKey (path ++ [name]) ++ [']', '\n'], .table ⟨path, name⟩) ::
    fields.map fun f => (writeField f.1 f.2, .binding ⟨[], f.1⟩ f.2.value)

/-- The texts of the parts of a table are the table as it is written. -/
theorem flatMap_fst_tableParts (path : List String) (name : String) (fields : List (String × Setting)) :
    (tableParts path name fields).flatMap Prod.fst = SettingTable.write ⟨path ++ [name], fields⟩ := by
  simp [tableParts, SettingTable.write, List.flatMap_map]

/-- The statements of the parts of a table are its header and one binding for each field. -/
theorem map_snd_tableParts (path : List String) (name : String) (fields : List (String × Setting)) :
    (tableParts path name fields).map Prod.snd =
      .table ⟨path, name⟩ :: (fieldValues fields).map fun b => .binding ⟨[], b.1⟩ b.2 := by
  simp [tableParts, fieldValues]

/-- Each part of a table is the text of its statement. -/
theorem isStatement_of_mem_tableParts {path : List String} (hpath : path.length < maxParts) {name : String}
    {fields : List (String × Setting)} {p : List Char × Statement} (hp : p ∈ tableParts path name fields) :
    IsStatement p.1 p.2 := by
  rcases List.mem_cons.1 hp with rfl | hp
  · exact Toml.isStatement_table hpath name
  · obtain ⟨f, -, rfl⟩ := List.mem_map.1 hp
    exact Toml.isStatement_binding f.1 f.2.isValue_write

/-- A table under its own header while the document is read. -/
def draftTable (fields : List (String × Setting)) : Draft :=
  .table .header ((fieldValues fields).map fun b => (b.1, .value b.2))

/-- The statements of a table add it to the entries of the table in which it is. -/
theorem foldlM_step?_tableParts {path : List String} {place : Draft.Entries → Draft.Entries}
    (h : Focus path place) {name : String} {es : Draft.Entries} (hname : name ∉ es.map Prod.fst)
    (current : List String) {fields : List (String × Setting)}
    (hdistinct : ((fieldValues fields).map Prod.fst).Nodup) :
    ((tableParts path name fields).map Prod.snd).foldlM Scan.step? ⟨place es, current⟩ =
      some ⟨place (es ++ [(name, draftTable fields)]), path ++ [name]⟩ := by
  rw [map_snd_tableParts]
  exact Toml.foldlM_step?_table h hname current hdistinct

/-! ### The document -/

namespace Config

/-- The statements of the text of a configuration, each with its text. -/
def parts (c : Config) : List (List Char × Statement) :=
  tableParts [] "agents" (agentsTable c.agents).fields ++ (['\n'], .blank) ::
    (tableParts [] "manifest" (manifestTable c.manifest).fields ++ (['\n'], .blank) ::
      (tableParts [] "hooks" (hooksTable c.hooks).fields ++ (['\n'], .blank) ::
        tableParts ["hooks"] "recommended_timeouts" (timeoutsTable c.hooks).fields))

/-- The entries of the document that is the text of a configuration. -/
def entries (c : Config) : List (String × Value) :=
  [("agents", .table (fieldValues (agentsTable c.agents).fields)),
    ("manifest", .table (fieldValues (manifestTable c.manifest).fields)),
    ("hooks", .table (fieldValues (hooksTable c.hooks).fields ++
      [("recommended_timeouts", .table (fieldValues (timeoutsTable c.hooks).fields))]))]

/-- The text of a configuration is the texts of its parts, one after the other. -/
theorem toList_toText (c : Config) : c.toText.toList = c.parts.flatMap Prod.fst := by
  simp only [toText, tables, parts, String.toList_ofList, List.flatMap_append, List.flatMap_cons,
    flatMap_fst_tableParts]
  simp [agentsTable, manifestTable, hooksTable, timeoutsTable]

/-- Each part of a configuration is the text of its statement. -/
theorem isStatement_of_mem_parts (c : Config) : ∀ p ∈ c.parts, IsStatement p.1 p.2 := by
  have hroot : ([] : List String).length < maxParts := by decide
  have hhooks : ["hooks"].length < maxParts := by decide
  intro p hp
  simp only [parts, List.mem_append, List.mem_cons] at hp
  rcases hp with hp | rfl | hp | rfl | hp | rfl | hp
  · exact isStatement_of_mem_tableParts hroot hp
  · exact Toml.isStatement_blank
  · exact isStatement_of_mem_tableParts hroot hp
  · exact Toml.isStatement_blank
  · exact isStatement_of_mem_tableParts hroot hp
  · exact Toml.isStatement_blank
  · exact isStatement_of_mem_tableParts hhooks hp

/-- The keys of a table are distinct, so those of the recommended timeouts are. -/
theorem nodup_timeouts (rules : HookRules) :
    ((fieldValues (timeoutsTable rules).fields).map Prod.fst).Nodup := by
  have hnames : (fieldValues (timeoutsTable rules).fields).map Prod.fst =
      rules.recommendedTimeouts.keys := by
    simp [fieldValues, timeoutsTable, Table.keys]
  rw [hnames]
  exact rules.recommendedTimeouts.keys_nodup

/-- The root of the document when it has been read. -/
def draft (c : Config) : Draft.Entries :=
  [("agents", draftTable (agentsTable c.agents).fields),
    ("manifest", draftTable (manifestTable c.manifest).fields),
    ("hooks", .table .header
      ((fieldValues (hooksTable c.hooks).fields).map (fun b => (b.1, Draft.value b.2)) ++
        [("recommended_timeouts", draftTable (timeoutsTable c.hooks).fields)]))]

/-- The draft of a configuration is that of its entries. -/
theorem toEntries_draft (c : Config) : Draft.toEntries c.draft = c.entries := by
  simp [draft, entries, draftTable, Draft.toEntries, Draft.toValue, Draft.toEntries_append,
    Draft.toEntries_map_value]

/-- Taking the statements of a configuration one after the other ends with its draft. -/
theorem foldlM_step?_parts (c : Config) :
    (c.parts.map Prod.snd).foldlM Scan.step? .start =
      some ⟨c.draft, ["hooks", "recommended_timeouts"]⟩ := by
  let before : Draft.Entries := c.draft.take 2
  let hooks : Draft.Entries := (fieldValues (hooksTable c.hooks).fields).map fun b => (b.1, .value b.2)
  have hfirst : "agents" ∉ ([] : Draft.Entries).map Prod.fst := List.not_mem_nil
  have hagents : ((tableParts [] "agents" (agentsTable c.agents).fields).map Prod.snd).foldlM Scan.step?
      .start = some ⟨c.draft.take 1, ["agents"]⟩ :=
    foldlM_step?_tableParts focus_root hfirst [] (by simp [fieldValues, agentsTable])
  have hmanifest : ((tableParts [] "manifest" (manifestTable c.manifest).fields).map Prod.snd).foldlM
      Scan.step? ⟨c.draft.take 1, ["agents"]⟩ = some ⟨before, ["manifest"]⟩ :=
    foldlM_step?_tableParts focus_root (by simp) ["agents"] (by simp [fieldValues, manifestTable])
  have hhooks : ((tableParts [] "hooks" (hooksTable c.hooks).fields).map Prod.snd).foldlM Scan.step?
      ⟨before, ["manifest"]⟩ = some ⟨before ++ [("hooks", .table .header hooks)], ["hooks"]⟩ :=
    foldlM_step?_tableParts focus_root (by simp) ["manifest"] (by simp [fieldValues, hooksTable])
  -- The last table stands in the one before, so its surroundings are the root with the entries so far.
  have hfocus : Focus ["hooks"] fun inner => before ++ [("hooks", .table .header inner)] :=
    focus_root.open (by simp [before, draft])
  have htimeouts : ((tableParts ["hooks"] "recommended_timeouts" (timeoutsTable c.hooks).fields).map
      Prod.snd).foldlM Scan.step? ⟨before ++ [("hooks", .table .header hooks)], ["hooks"]⟩ =
        some ⟨c.draft, ["hooks", "recommended_timeouts"]⟩ :=
    foldlM_step?_tableParts hfocus (by simp [hooks, fieldValues, hooksTable]) ["hooks"]
      (nodup_timeouts c.hooks)
  have hblank : ∀ scan : Scan, scan.step? .blank = some scan := fun _ => rfl
  simp only [parts, List.map_append, List.map_cons, List.foldlM_append, List.foldlM_cons, hblank,
    Option.bind_eq_bind, hagents, hmanifest, hhooks, htimeouts, Option.bind_some]

/-- The text of a configuration is a document with its entries. -/
theorem readDocument_toText (c : Config) : Toml.readDocument c.toText = .ok c.entries := by
  have hmark : Text.dropMark c.toText.toList = c.toText.toList := by
    rw [toList_toText]
    rfl
  rw [Toml.readDocument_of_parts c.isStatement_of_mem_parts c.toList_toText hmark c.foldlM_step?_parts,
    toEntries_draft]

/-! ### Reading the entries -/

/-- The last table means the recommended timeouts. -/
theorem isNumbers_timeouts (rules : HookRules) :
    IsNumbers (.table (fieldValues (timeoutsTable rules).fields)) rules.recommendedTimeouts := by
  refine ⟨rules.recommendedTimeouts.entries, ?_, ?_⟩
  · simp [fieldValues, timeoutsTable, Setting.value]
  · refine Table.ext_find? fun name => ?_
    have hfind := Table.find?_ofList_map rules.recommendedTimeouts id name
    simpa using hfind.symm

/-- Entries can be held if each of them can. -/
theorem entriesAreRepresentable_of_forall {entries : List (String × Value)}
    (h : ∀ e ∈ entries, e.2.isRepresentable = true) : Toml.entriesAreRepresentable entries = true := by
  induction entries with
  | nil => rfl
  | cons e entries ih =>
    obtain ⟨he, hentries⟩ := List.forall_mem_cons.1 h
    rw [Toml.entriesAreRepresentable, he, ih hentries]
    rfl

/-- No entry that is written for a field holds a number that is too large. -/
theorem isRepresentable_of_mem_fieldValues {fields : List (String × Setting)} {e : String × Value}
    (he : e ∈ fieldValues fields) : e.2.isRepresentable = true := by
  obtain ⟨f, -, rfl⟩ := List.mem_map.1 he
  exact f.2.isRepresentable_value

/-- The first table says all rules for descriptors. -/
theorem overrides_agentsTable (rules : AgentRules) :
    Overrides agentFields (.byName (fieldValues (agentsTable rules).fields)) .default rules := by
  simp only [Overrides, agentFields, forall_mem_zipIdx_cons, forall_mem_zipIdx_nil, and_true]
  exact ⟨rfl, rfl, rfl, rfl, rfl, rfl⟩

/-- The second table says all rules for the manifest. -/
theorem overrides_manifestTable (rules : ManifestRules) :
    Overrides manifestFields (.byName (fieldValues (manifestTable rules).fields)) .default rules := by
  simp only [Overrides, manifestFields, forall_mem_zipIdx_cons, forall_mem_zipIdx_nil, and_true]
  exact ⟨rfl, rfl, rfl⟩

/-- The third table, with the one inside it, says all rules for settings. -/
theorem overrides_hooksTable (rules : HookRules) :
    Overrides hookFields (.byName (fieldValues (hooksTable rules).fields ++
      [("recommended_timeouts", .table (fieldValues (timeoutsTable rules).fields))])) .default rules := by
  simp only [Overrides, hookFields, forall_mem_zipIdx_cons, forall_mem_zipIdx_nil, and_true]
  exact ⟨rfl, rfl, rfl, rfl, rfl, rfl, rfl, rfl, isNumbers_timeouts rules⟩

/-- All numbers in the third table can be held. -/
theorem areHeld_hooksTable (rules : HookRules) :
    (Fields.byName (fieldValues (hooksTable rules).fields ++
      [("recommended_timeouts", .table (fieldValues (timeoutsTable rules).fields))])).AreHeld := by
  intro e he
  rcases List.mem_append.1 he with he | he
  · exact isRepresentable_of_mem_fieldValues he
  · rw [List.mem_singleton.1 he]
    exact entriesAreRepresentable_of_forall fun _ => isRepresentable_of_mem_fieldValues

/-- The entries of the text of a configuration say this configuration. -/
theorem ofRoot_entries (c : Config) : ofRoot c.entries = .ok c := by
  have hothers : ∀ e ∈ c.entries, e.1 ∉ sectionNames → e.2.isRepresentable = true := by
    simp [entries, sectionNames]
  have hagents : IsSection c.entries "agents" (.byName (fieldValues (agentsTable c.agents).fields)) :=
    .table rfl
  have hmanifest :
      IsSection c.entries "manifest" (.byName (fieldValues (manifestTable c.manifest).fields)) := .table rfl
  have hhooks : IsSection c.entries "hooks" (.byName (fieldValues (hooksTable c.hooks).fields ++
      [("recommended_timeouts", .table (fieldValues (timeoutsTable c.hooks).fields))])) := .table rfl
  have hagents' := overrides_agentsTable c.agents
  have hmanifest' := overrides_manifestTable c.manifest
  have hhooks' := overrides_hooksTable c.hooks
  refine ofRoot_eq_ok_iff.2 ⟨⟨hothers, ?_, ?_, ?_⟩, ⟨_, hagents, hagents'⟩, ⟨_, hmanifest, hmanifest'⟩,
    ⟨_, hhooks, hhooks'⟩⟩
  · exact ⟨_, hagents, fun _ => isRepresentable_of_mem_fieldValues, hagents'.areWellTyped⟩
  · exact ⟨_, hmanifest, fun _ => isRepresentable_of_mem_fieldValues, hmanifest'.areWellTyped⟩
  · exact ⟨_, hhooks, areHeld_hooksTable c.hooks, hhooks'.areWellTyped⟩

/-- The text of a configuration is read as the configuration. -/
theorem ofText_toText (c : Config) : ofText c.toText = .ok c := by
  rw [ofText, readDocument_toText]
  exact c.ofRoot_entries

/-- Different configurations have different texts. -/
theorem toText_injective : Function.Injective toText := by
  intro c d h
  have hread := ofText_toText d
  rw [← h, ofText_toText] at hread
  exact Except.ok.inj hread

/-! ### Loading -/

/-- **Printed configurations are loaded unchanged.** A project whose configuration file holds the text of a
configuration with some timeout within its bounds has this configuration, whatever strings and numbers
are in it. -/
theorem load_toText (c : Config) (hbounds : c.hooks.minTimeout ≤ c.hooks.maxTimeout) {t : FileTree}
    {root : Path} (hfile : t.readText (root.join ⟨fileName⟩) = .ok c.toText) :
    load t root none = .ok c := by
  have hcheck : c.checkBounds = .ok c := if_neg (UInt64.not_lt.2 hbounds)
  simp only [load, FileTree.isFile_of_readText hfile, if_true, readFile, hfile, ofText_toText, hcheck]

/-- A configuration with strings that need each style of quotes, with an empty list and with the largest
number. -/
def awkward : Config where
  agents := { AgentRules.default with
    dir := "it's a \"dir\" \\ \u00e9"
    suffix := ""
    requiredFields := []
    models := ["one\ntwo\r", "\t\x7f"]
    minBodyChars := 18446744073709551615 }
  manifest := .default
  hooks := { HookRules.default with
    lifecycles := ["\"\"\"\n'''"]
    recommendedTimeouts := Table.ofList [("a \"key\"\n", 0), ("", 1)] }

/-- A project with the text of this configuration in its file. -/
def awkwardFiles : FileTree :=
  ⟨[("p", .directory [(fileName, .file (some awkward.toText))])]⟩

/-- A configuration with awkward texts and keys, written to the default file, is loaded again. -/
theorem load_toText_of_awkward :
    awkward.hooks.minTimeout ≤ awkward.hooks.maxTimeout ∧
      awkwardFiles.readText (Path.join ⟨"/p"⟩ ⟨fileName⟩) = .ok awkward.toText ∧
      load awkwardFiles ⟨"/p"⟩ none = .ok awkward := by
  have hfile : awkwardFiles.readText (Path.join ⟨"/p"⟩ ⟨fileName⟩) = .ok awkward.toText := rfl
  exact ⟨by decide, hfile, load_toText awkward (by decide) hfile⟩

end Config

end Preflight

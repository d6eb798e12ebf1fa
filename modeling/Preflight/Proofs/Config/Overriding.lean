import Preflight.Proofs.Config.RoundTrip

/-!
# Configuration files override the default

A file that can be read and holds a document decides on the configuration of a project
alone (`load_of_document`): if the document can be used, each field is what the document
says or else the default, and the configuration is refused only if no timeout is left
within its bounds; if it cannot be used, the file is refused. So a value of the wrong type
never falls back to the default.
-/

set_option autoImplicit false

namespace Preflight.Config

open Preflight.Toml (Value)

variable {t : FileTree} {root : Path} {explicit : Option Path}

/-- The path of the file that is asked for, or of the file of the project. -/
def chosenPath (root : Path) (explicit : Option Path) : Path :=
  root.join (explicit.getD ⟨fileName⟩)

/-- If there is a file at the chosen path, it is the one that is read. -/
theorem load_of_isFile (h : t.isFile (chosenPath root explicit) = true) :
    load t root explicit = readFile t (chosenPath root explicit) := by
  cases explicit with
  | none => exact if_pos h
  | some path => exact if_pos h

/-- What a file says is a configuration subject to the check of its bounds. -/
theorem readFile_of_ofRoot {path : Path} {text : String} {document : List (String × Value)} {c : Config}
    (hfile : t.readText path = .ok text) (hdocument : Toml.readDocument text = .ok document)
    (hroot : ofRoot document = .ok c) : readFile t path = c.checkBounds := by
  simp only [readFile, hfile, ofText, hdocument, hroot]

/-- A file with an unusable document is malformed. -/
theorem exists_readFile_eq_error {path : Path} {text : String} {document : List (String × Value)}
    (hfile : t.readText path = .ok text) (hdocument : Toml.readDocument text = .ok document)
    (hunusable : ¬IsUsable document) : ∃ detail, readFile t path = .error (.configMalformed path detail) := by
  cases hroot : ofRoot document with
  | ok c => exact absurd (ofRoot_eq_ok_iff.1 hroot).1 hunusable
  | error flaw => exact ⟨_, by simp only [readFile, hfile, ofText, hdocument, hroot]; rfl⟩

/-- **A configuration file overrides the default field by field.** If the file that is chosen can be read
and holds a document whose known fields have values of the right types, the configuration is the one
that the document makes of the default, unless that leaves no timeout within its bounds. If a known field
or a section has a value of another type, or a number elsewhere is too large to be held, the
file is refused. -/
theorem load_of_document {text : String} {document : List (String × Value)}
    (hfile : t.readText (chosenPath root explicit) = .ok text)
    (hdocument : Toml.readDocument text = .ok document) :
    (IsUsable document → ∃ c, IsSaidBy document c ∧ (∀ d, IsSaidBy document d → d = c) ∧
      load t root explicit =
        if c.hooks.maxTimeout < c.hooks.minTimeout then
          .error (.configBounds c.hooks.minTimeout c.hooks.maxTimeout)
        else .ok c) ∧
    (¬IsUsable document →
      ∃ detail, load t root explicit = .error (.configMalformed (chosenPath root explicit) detail)) := by
  rw [load_of_isFile (FileTree.isFile_of_readText hfile)]
  refine ⟨fun husable => ?_, exists_readFile_eq_error hfile hdocument⟩
  obtain ⟨c, hsaid⟩ := husable.exists_isSaidBy
  have hroot : ofRoot document = .ok c := ofRoot_eq_ok_iff.2 ⟨husable, hsaid⟩
  refine ⟨c, hsaid, fun d hd => ?_, readFile_of_ofRoot hfile hdocument hroot⟩
  have hroot' : ofRoot document = .ok d := ofRoot_eq_ok_iff.2 ⟨husable, hd⟩
  rw [hroot] at hroot'
  exact (Except.ok.inj hroot').symm

/-- A document with one table. -/
theorem readDocument_table {name : String} {fields : List (String × Setting)}
    (hdistinct : ((fieldValues fields).map Prod.fst).Nodup) {text : String}
    (htext : text.toList = SettingTable.write ⟨[name], fields⟩) :
    Toml.readDocument text = .ok [(name, .table (fieldValues fields))] := by
  have hroot : ([] : List String).length < Toml.maxParts := by decide
  have hparts : text.toList = (tableParts [] name fields).flatMap Prod.fst :=
    htext.trans (flatMap_fst_tableParts [] name fields).symm
  have hmark : Text.dropMark text.toList = text.toList := by
    rw [htext]
    rfl
  have hfirst : name ∉ ([] : Toml.Draft.Entries).map Prod.fst := List.not_mem_nil
  have hrun := foldlM_step?_tableParts Toml.Draft.focus_root hfirst [] hdistinct
  rw [Toml.readDocument_of_parts (fun _ => isStatement_of_mem_tableParts hroot) hparts hmark hrun]
  simp [draftTable, Toml.Draft.toEntries, Toml.Draft.toValue, Toml.Draft.toEntries_map_value]

/-- A table with a bound that the default of the other bound does not allow, and with an unknown field. -/
def lateFields : List (String × Setting) :=
  [("jitter", .number 5), ("min_timeout", .number 601)]

/-- What the table makes of the default. -/
def lateConfig : Config :=
  { Config.default with hooks := { HookRules.default with minTimeout := 601 } }

/-- A table with the same bound as a text. -/
def mistypedFields : List (String × Setting) :=
  [("min_timeout", .text "601")]

def lateText : String :=
  "[hooks]\njitter = 5\nmin_timeout = 601\n"

def mistypedText : String :=
  "[hooks]\nmin_timeout = \"601\"\n"

def lateFiles : FileTree :=
  ⟨[("p", .directory
    [("late.toml", .file (some lateText)), ("mistyped.toml", .file (some mistypedText))])]⟩

/-- The table changes the lower bound of the default and nothing else. -/
theorem overrides_lateFields :
    Overrides hookFields (.byName (fieldValues lateFields)) .default lateConfig.hooks := by
  simp only [Overrides, hookFields, forall_mem_zipIdx_cons, forall_mem_zipIdx_nil, and_true]
  exact ⟨rfl, rfl, rfl, rfl, rfl, rfl, rfl, rfl, rfl⟩

/-- The document with the table alone is usable, its unknown field included. -/
theorem isUsable_lateFields : IsUsable [("hooks", .table (fieldValues lateFields))] where
  others := by simp [sectionNames]
  agents := sectionIsUsable_of_absent rfl
  manifest := sectionIsUsable_of_absent rfl
  hooks := ⟨_, .table rfl, fun _ => isRepresentable_of_mem_fieldValues, overrides_lateFields.areWellTyped⟩

/-- The document with the table alone says the default with another lower bound. -/
theorem isSaidBy_lateFields : IsSaidBy [("hooks", .table (fieldValues lateFields))] lateConfig where
  agents := sectionGives_of_absent rfl
  manifest := sectionGives_of_absent rfl
  hooks := ⟨_, .table rfl, overrides_lateFields⟩

/-- A text is no bound, so the other document is not usable. -/
theorem not_isUsable_mistypedFields : ¬IsUsable [("hooks", .table (fieldValues mistypedFields))] := by
  intro h
  obtain ⟨fields, hfields, -, htyped⟩ := h.hooks
  obtain rfl := hfields.unique (.table rfl)
  have hnumber : ∃ n, IsNumber (.string "601") n :=
    htyped (⟨"min_timeout", IsNumber, HookRules.minTimeout⟩, 2) (by simp [hookFields]) _ rfl
  obtain ⟨n, hn⟩ := hnumber
  cases hn

/-- A bound above the other one fails the check of the bounds, while a bound of the wrong type already
fails the reading. -/
theorem load_of_document_late :
    load lateFiles ⟨"/p"⟩ (some ⟨"late.toml"⟩) = .error (.configBounds 601 600) ∧
      ∃ detail, load lateFiles ⟨"/p"⟩ (some ⟨"mistyped.toml"⟩) =
        .error (.configMalformed ⟨"/p/mistyped.toml"⟩ detail) := by
  constructor
  · have hfile : lateFiles.readText (chosenPath ⟨"/p"⟩ (some ⟨"late.toml"⟩)) = .ok lateText := rfl
    have hdocument : Toml.readDocument lateText = .ok [("hooks", .table (fieldValues lateFields))] :=
      readDocument_table (by decide) (by decide +kernel)
    obtain ⟨c, -, honly, hload⟩ := (load_of_document hfile hdocument).1 isUsable_lateFields
    rw [hload, ← honly lateConfig isSaidBy_lateFields]
    rfl
  · have hfile : lateFiles.readText (chosenPath ⟨"/p"⟩ (some ⟨"mistyped.toml"⟩)) = .ok mistypedText := rfl
    have hdocument : Toml.readDocument mistypedText =
        .ok [("hooks", .table (fieldValues mistypedFields))] :=
      readDocument_table (by decide) (by decide +kernel)
    exact (load_of_document hfile hdocument).2 not_isUsable_mistypedFields

/-! ### Sections that are no tables -/

/-- A document with one field outside of tables. -/
theorem readDocument_field {name : String} {s : Setting} {text : String}
    (htext : text.toList = writeField name s) (hmark : Text.dropMark text.toList = text.toList) :
    Toml.readDocument text = .ok [(name, s.value)] := by
  have hparts : ∀ p ∈ [(writeField name s, Toml.Statement.binding ⟨[], name⟩ s.value)],
      Toml.IsStatement p.1 p.2 :=
    List.forall_mem_singleton.2 (Toml.isStatement_binding name s.isValue_write)
  exact Toml.readDocument_of_parts hparts (htext.trans (List.append_nil _).symm) hmark rfl

def projectWith (text : String) : FileTree :=
  ⟨[("p", .directory [(fileName, .file (some text))])]⟩

/-- The default but for the directory of descriptors. -/
def listedConfig : Config :=
  { Config.default with agents := { AgentRules.default with dir := "x" } }

/-- A list is read by the order of the fields: it is neither refused nor without effect. A date in its place
leaves the default, and a file with a number that is too large is refused even if nothing else is in it. -/
theorem load_section_not_table :
    Toml.readDocument "agents = [\"x\"]\n" = .ok [("agents", .array [.string "x"])] ∧
      load (projectWith "agents = [\"x\"]\n") ⟨"/p"⟩ none = .ok listedConfig ∧ listedConfig ≠ .default ∧
      load (projectWith "agents = 1979-05-27\n") ⟨"/p"⟩ none = .ok .default ∧
      load (projectWith "jitter = 1e999\n") ⟨"/p"⟩ none =
        .error (.configMalformed ⟨"/p/agentlint.toml"⟩ "number out of range in the value of 'jitter'") := by
  have hlisted : "agents = [\"x\"]\n".toList = writeField "agents" (.texts ["x"]) := by decide +kernel
  exact ⟨readDocument_field hlisted rfl, by decide +kernel, by decide +kernel, by decide +kernel,
    by decide +kernel⟩

end Preflight.Config

import Preflight.Proofs.Agents.Batches
import Preflight.Proofs.Report.Advice

/-!
# What descriptors and manifests are faulted for

The faults of a descriptor file and of a manifest for which there is advice, each with
the phrase under which the advice is kept. Checking something with such a fault gives an
error whose message holds the phrase (`complains_of_fileFault`,
`complains_of_manifestFault`).
-/

set_option autoImplicit false

namespace Preflight

open Preflight.Json (Value)
open Preflight.Text (occurs_append_left occurs_append_right)

variable {t : FileTree} {phrase : String}

/-! ### Descriptors -/

namespace Agents

open Preflight.Header

/-- What a descriptor file is faulted for, with the phrase of the advice. -/
inductive FileFault (t : FileTree) (rules : AgentRules) (path : Path) : String → Prop
  /-- The header is not opened or not closed. -/
  | header {text : String} {e : HeaderError} : t.readText path = .ok text →
    Document.ofText text = .error e → FileFault t rules path "header"
  /-- A required field is absent or empty. -/
  | required {text field : String} {doc : Document} : t.readText path = .ok text →
    Document.ofText text = .ok doc → field ∈ rules.requiredFields →
    (∀ value, doc.header.find? field = some value → value.isEmpty = true) →
    FileFault t rules path "missing required field"
  /-- There is a model that is none of those listed. -/
  | model {text : String} {doc : Document} {model : FieldValue} : t.readText path = .ok text →
    Document.ofText text = .ok doc → doc.header.find? "model" = some model →
    (∀ name ∈ rules.models, model ≠ .scalar name) → FileFault t rules path "invalid model"

/-- A field that is absent or empty is complained about. -/
theorem complains_requiredIssue? {header : Descriptor} {field : String}
    (h : ∀ value, header.find? field = some value → value.isEmpty = true) (label : String) :
    (Outcome.ofOption (requiredIssue? header label field)).Complains "missing required field" := by
  unfold requiredIssue?
  cases hfind : header.find? field with
  | none =>
    refine Outcome.complains_ofOption rfl ?_
    simp only [String.append_assoc]
    exact occurs_append_left (by decide +kernel) _
  | some value =>
    simp only [h value hfind, if_true]
    refine Outcome.complains_ofOption rfl ?_
    simp only [String.append_assoc]
    exact occurs_append_left (by decide +kernel) _

/-- A model that is none of the listed ones is complained about. -/
theorem complains_modelIssue? {header : Descriptor} {models : List String} {model : FieldValue}
    (hfind : header.find? "model" = some model) (hmodel : ∀ name ∈ models, model ≠ .scalar name)
    (label : String) :
    (Outcome.ofOption (modelIssue? header label models)).Complains "invalid model" := by
  have hlisted : model.scalar?.any models.contains = false := by
    cases model with
    | scalar name =>
      have hmem : name ∉ models := fun h => hmodel name h rfl
      simpa [FieldValue.scalar?] using hmem
    | list items => rfl
  unfold modelIssue?
  simp only [hfind, hlisted, Bool.false_eq_true, if_false]
  refine Outcome.complains_ofOption rfl ?_
  simp only [String.append_assoc]
  exact occurs_append_left (by decide +kernel) _

/-- A rule that complains about a document is heard. -/
theorem complains_checkDocument {doc : Document} {stem label : String} {rules : AgentRules}
    (h : (∃ field ∈ rules.requiredFields,
        (Outcome.ofOption (requiredIssue? doc.header label field)).Complains phrase) ∨
      (Outcome.ofOption (modelIssue? doc.header label rules.models)).Complains phrase) :
    (checkDocument doc stem label rules).Complains phrase := by
  rcases h with ⟨field, hfield, h⟩ | h
  · refine h.mono fun d hd => ?_
    have hmem : d ∈ rules.requiredFields.filterMap (requiredIssue? doc.header label) :=
      List.mem_filterMap.2 ⟨field, hfield, Option.mem_toList.1 hd⟩
    simp [checkDocument, hmem]
  · refine h.mono fun d hd => ?_
    have hissue : modelIssue? doc.header label rules.models = some d := Option.mem_toList.1 hd
    simp [checkDocument, hissue]

/-- Every fault of a descriptor file is complained about with its phrase. -/
theorem complains_of_fileFault {rules : AgentRules} {path : Path}
    (h : FileFault t rules path phrase) : (checkFile t path rules).Complains phrase := by
  cases h with
  | @header text e htext hdocument =>
    simp only [checkFile, htext, hdocument]
    apply Outcome.complains_single
    cases e <;> decide +kernel
  | required htext hdocument hfield hempty =>
    simp only [checkFile, htext, hdocument]
    exact complains_checkDocument (.inl ⟨_, hfield, complains_requiredIssue? hempty _⟩)
  | model htext hdocument hfind hmodel =>
    simp only [checkFile, htext, hdocument]
    exact complains_checkDocument (.inr (complains_modelIssue? hfind hmodel _))

end Agents

/-! ### Manifests -/

namespace Manifest

/-- What a manifest is faulted for, with the phrase of the advice. -/
inductive ManifestFault (m : Manifest) (inventory : Inventory) : String → Prop
  /-- There are not as many entries as files. -/
  | count : m.entries.length ≠ inventory.size → ManifestFault m inventory "agent file(s) but"
  /-- An entry ends with a separator. -/
  | directory {entry : String} {c : Char} : .string entry ∈ m.entries →
    entry.toList.getLast? = some c → c = '/' ∨ c = '\\' →
    ManifestFault m inventory "references a directory"

/-- An entry that ends with a separator is complained about. -/
theorem complains_checkEntry_of_isDirectoryName {m : Manifest} {root : Path} {suffix entry : String}
    (h : isDirectoryName entry = true) (index : Nat) :
    (checkEntry t m root suffix index (.string entry)).Complains "references a directory" := by
  have hissue : (Outcome.ofOption (m.directoryIssue? index entry)).Complains
      "references a directory" := by
    unfold directoryIssue?
    rw [if_pos h]
    exact Outcome.complains_ofOption rfl (occurs_append_right _ (by decide +kernel))
  refine hissue.mono fun d hd => ?_
  rw [checkEntry]
  exact List.mem_append_left _ (List.mem_append_left _ hd)

/-- Every fault of a manifest is complained about with its phrase. -/
theorem complains_of_manifestFault {m : Manifest} {inventory : Inventory} {root : Path}
    {suffix : String} (h : m.ManifestFault inventory phrase) :
    (crossCheck t m inventory root suffix).Complains phrase := by
  cases h with
  | count hcount =>
    have hcomplains : (m.checkCount inventory).Complains "agent file(s) but" := by
      unfold checkCount
      rw [if_neg hcount]
      refine Outcome.complains_single ?_
      simp only [String.append_assoc]
      exact occurs_append_right _ (occurs_append_right _ (occurs_append_left (by decide +kernel) _))
    exact (hcomplains.append_right _).append_left _
  | @directory entry c hentry hlast hseparator =>
    have hname : isDirectoryName entry = true := by
      unfold isDirectoryName
      rw [hlast]
      rcases hseparator with rfl | rfl <;> rfl
    have hcomplains : (checkEntries t m root suffix).Complains "references a directory" := by
      unfold checkEntries
      refine Outcome.complains_concat_zipIdx hentry
        (fun entry index => checkEntry t m root suffix index entry) fun index => ?_
      exact complains_checkEntry_of_isDirectoryName hname index
    exact ((hcomplains.append_left _).append_left _).append_left _

end Manifest

end Preflight

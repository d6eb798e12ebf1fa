import Preflight.Agents.Batch
import Preflight.Proofs.Diagnostic.Places
import Preflight.Proofs.Path.Steps

/-!
# The file that a diagnostic is about

All that is said about a descriptor has the name of its file as scope, so that what
is said about one file can be told apart from what is said about the others.
-/

set_option autoImplicit false

namespace Preflight.Agents

open Preflight.Header

/-- The name of a file is its label wherever the file is. -/
theorem labelOf_join_name (dir : Path) {name : String} (h : Path.IsName name) :
    labelOf (dir.join ⟨name⟩) = name := by
  unfold labelOf Path.fileName?
  rw [Path.steps_join_name dir h, List.getLast?_concat]
  rfl

/-! ### Descriptors -/

section

variable {d : Diagnostic} {header : Descriptor} {label : String}

/-- A missing field is reported at the field. -/
theorem location_of_requiredIssue? {field : String}
    (h : requiredIssue? header label field = some d) : d.location = fieldOf label field := by
  unfold requiredIssue? at h
  split at h
  · cases h
    rfl
  · split at h
    · cases h
      rfl
    · cases h

/-- What is wrong with the name is reported at the field for it. -/
theorem location_of_nameIssue? {stem : String} (h : nameIssue? header stem label = some d) :
    d.location = fieldOf label "name" := by
  unfold nameIssue? at h
  split at h
  · split at h
    · cases h
      rfl
    · cases h
  · split at h
    · cases h
    · cases h
      rfl
  · cases h

/-- What is wrong with the model is reported at the field for it. -/
theorem location_of_modelIssue? {models : List String}
    (h : modelIssue? header label models = some d) : d.location = fieldOf label "model" := by
  unfold modelIssue? at h
  split at h
  · cases h
  · split at h
    · cases h
    · cases h
      rfl

/-- What is wrong with the description is reported at the field for it. -/
theorem location_of_descriptionIssue? {least : UInt64}
    (h : descriptionIssue? header label least = some d) :
    d.location = fieldOf label "description" := by
  unfold descriptionIssue? at h
  split at h
  · dsimp only at h
    split at h
    · cases h
      rfl
    · cases h
  · cases h

/-- What is wrong with the skills is reported at the field for them. -/
theorem location_of_skillsIssue? (h : skillsIssue? header label = some d) :
    d.location = fieldOf label "skills" := by
  unfold skillsIssue? at h
  split at h
  · split at h
    · cases h
      rfl
    · cases h
  · cases h

/-- What is wrong with the body is reported as a field of its own. -/
theorem location_of_bodyIssue? {body : String} {least : UInt64}
    (h : bodyIssue? body label least = some d) : d.location = fieldOf label "body" := by
  unfold bodyIssue? at h
  dsimp only at h
  split at h
  · cases h
    rfl
  · cases h

end

/-- The fields that rules of their own are about. -/
def documentFields : List String := ["name", "model", "description", "skills", "body"]

/-- Every rule speaks about a field of the file. -/
theorem exists_field_of_mem_checkDocument {doc : Document} {stem label : String} {rules : AgentRules}
    {d : Diagnostic} (hd : d ∈ (checkDocument doc stem label rules).diagnostics) :
    ∃ field, (field ∈ rules.requiredFields ∨ field ∈ documentFields) ∧
      d.location = fieldOf label field := by
  unfold checkDocument at hd
  simp only [List.mem_append, List.mem_filterMap, Option.mem_toList] at hd
  rcases hd with ((((⟨field, hfield, h⟩ | h) | h) | h) | h) | h
  · exact ⟨field, .inl hfield, location_of_requiredIssue? h⟩
  · exact ⟨"name", .inr (by decide), location_of_nameIssue? h⟩
  · exact ⟨"model", .inr (by decide), location_of_modelIssue? h⟩
  · exact ⟨"description", .inr (by decide), location_of_descriptionIssue? h⟩
  · exact ⟨"skills", .inr (by decide), location_of_skillsIssue? h⟩
  · exact ⟨"body", .inr (by decide), location_of_bodyIssue? h⟩

/-- All that is said about a document is located under its label. -/
theorem checkDocument_within (doc : Document) (stem label : String) (rules : AgentRules) :
    (checkDocument doc stem label rules).Within ((Location.ofSource source).inScope label) := by
  intro d hd
  obtain ⟨field, -, hlocation⟩ := exists_field_of_mem_checkDocument hd
  rw [hlocation]
  exact Location.within_atField _ field

/-- A file that cannot be read or has no header is spoken about like any other. -/
theorem checkFile_within (t : FileTree) (path : Path) (rules : AgentRules) :
    (checkFile t path rules).Within ((Location.ofSource source).inScope (labelOf path)) := by
  unfold checkFile
  dsimp only
  split
  · exact Outcome.within_single (Location.within_onPath _ path)
  · split
    · exact checkDocument_within _ _ _ rules
    · exact Outcome.within_single (Location.within_onPath _ path)

end Preflight.Agents

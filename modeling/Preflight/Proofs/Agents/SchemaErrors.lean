import Mathlib.Data.List.Count
import Preflight.Proofs.Agents.SchemaRules

/-!
# The errors of a document are exact

A required field that is absent or empty has exactly one error of its own, whatever other
rules say about it, if no field is required twice (`count_missingError`). No warning is
about a name or a description that is blank (`mem_fields_warnings_iff`), and nothing but
the fields that the rules name makes a difference (`checkDocument_congr`). With the list of
all errors this is what is to be known about a check (`checkDocument_exact`).
-/

set_option autoImplicit false

namespace Preflight.Agents

open Preflight.Header

variable (doc : Document) (stem label : String) (rules : AgentRules)

/-! ### Missing fields -/

/-- The errors for different missing fields differ. -/
theorem missingError_injective (header : Descriptor) (label : String) :
    Function.Injective (missingError header label) := by
  intro field field' h
  exact Option.some.inj (congrArg (·.location.field) h)

/-- A text keeps its first character when another one follows it. -/
theorem head?_append_of_head? {text rest : String} {c : Char}
    (h : text.toList.head? = some c) : (text ++ rest).toList.head? = some c := by
  rw [String.toList_append, List.head?_append, h, Option.some_or]

/-- The messages of the three kinds of error differ from their first character on. -/
theorem head?_message_missingError (header : Descriptor) (label field : String) :
    (missingError header label field).message.toList.head? = some 'm' := by
  unfold missingError
  cases header.contains field <;>
    exact head?_append_of_head? (head?_append_of_head? (by decide +kernel))

/-- The error for a list as name is never mistaken for a missing field. -/
theorem missingError_ne_listNameError (header : Descriptor) (field : String) :
    listNameError label ≠ missingError header label field := by
  intro h
  have hhead : (listNameError label).message.toList.head? = some 'f' :=
    (by decide +kernel :
      "field 'name' must be a single value, found a list".toList.head? = some 'f')
  rw [h, head?_message_missingError] at hhead
  exact absurd hhead (by decide)

/-- The error for an unlisted model is never mistaken for a missing field. -/
theorem missingError_ne_unlistedError (header : Descriptor) (field : String)
    (models : List String) (model : FieldValue) :
    unlistedError label models model ≠ missingError header label field := by
  intro h
  have hhead : (unlistedError label models model).message.toList.head? = some 'i' :=
    head?_append_of_head? (head?_append_of_head? (head?_append_of_head? (by decide +kernel)))
  rw [h, head?_message_missingError] at hhead
  exact absurd hhead (by decide)

/-- A required field that is missing has one error, any other field has none. -/
theorem count_missingError (hdistinct : rules.requiredFields.Nodup) (field : String) :
    (checkDocument doc stem label rules).errors.count (missingError doc.header label field) =
      if field ∈ rules.requiredFields ∧ isMissing doc.header field = true then 1 else 0 := by
  have hname : (if hasListName doc.header then [listNameError label] else []).count
      (missingError doc.header label field) = 0 := by
    split
    · simp [missingError_ne_listNameError]
    · rfl
  have hmodel : ((unlistedModel? doc.header rules.models).toList.map
      (unlistedError label rules.models)).count (missingError doc.header label field) = 0 := by
    rw [List.count_eq_zero, List.mem_map]
    rintro ⟨model, -, h⟩
    exact missingError_ne_unlistedError label doc.header field rules.models model h
  rw [errors_checkDocument, List.count_append, List.count_append, hname, hmodel,
    List.count_map_of_injective _ _ (missingError_injective doc.header label),
    (hdistinct.filter _).count]
  simp only [List.mem_filter, Nat.add_zero]

/-! ### Warnings about one field -/

/-- An issue that can only be a warning at a field names this field if it is there, and no other. -/
theorem mem_fields_iff_of_isWarningAt {field : String} {issue : Option Diagnostic}
    (h : ∀ d ∈ issue, IsWarningAt label field d) (field' : String) :
    some field' ∈ issue.toList.map (fun d => d.location.field) ↔
      issue.isSome = true ∧ field' = field := by
  cases issue with
  | none => simp
  | some d => simp [(h d rfl).location, fieldOf, Location.atField]

/-- There is a warning about the name exactly if it is a text that is neither blank nor the name of
the file, and about the description exactly if it is a text that is not blank but too short. -/
theorem mem_fields_warnings_iff :
    (some "name" ∈ (checkDocument doc stem label rules).warnings.map (fun d => d.location.field) ↔
      ∃ name, doc.header.find? "name" = some (.scalar name) ∧ visibleLength name ≠ 0 ∧
        name ≠ stem) ∧
    (some "description" ∈
        (checkDocument doc stem label rules).warnings.map (fun d => d.location.field) ↔
      ∃ text, doc.header.find? "description" = some (.scalar text) ∧ 0 < visibleLength text ∧
        visibleLength text < rules.minDescriptionChars.toNat) := by
  simp only [warnings_checkDocument, List.map_append, List.mem_append,
    mem_fields_iff_of_isWarningAt label (isWarningAt_map (isWarningAt_mismatchWarning stem label) _),
    mem_fields_iff_of_isWarningAt label (isWarningAt_map (isWarningAt_shortWarning label _) _),
    mem_fields_iff_of_isWarningAt label isWarningAt_skillsIssue?,
    mem_fields_iff_of_isWarningAt label isWarningAt_bodyIssue?]
  simp [Option.isSome_iff_exists, mismatchedName?_eq_some_iff, shortDescription?_eq_some_iff]

/-! ### What makes a difference -/

/-- The fields that the rules look at whether they are required or not. -/
def namedFields : List String := ["name", "model", "description", "skills"]

/-- A header with the same required fields and the same named fields is judged alike. -/
theorem checkDocument_congr {header : Descriptor}
    (h : ∀ field, field ∈ rules.requiredFields ∨ field ∈ namedFields →
      header.find? field = doc.header.find? field) :
    checkDocument ⟨header, doc.body⟩ stem label rules = checkDocument doc stem label rules := by
  have hnamed : ∀ field ∈ namedFields, header.find? field = doc.header.find? field :=
    fun field hfield => h field (.inr hfield)
  have hrequired : rules.requiredFields.filterMap (requiredIssue? header label) =
      rules.requiredFields.filterMap (requiredIssue? doc.header label) := by
    apply List.filterMap_congr
    intro field hfield
    unfold requiredIssue?
    rw [h field (.inl hfield)]
  have hname : nameIssue? header stem label = nameIssue? doc.header stem label := by
    unfold nameIssue?
    rw [hnamed "name" (by decide)]
  have hmodel : modelIssue? header label rules.models = modelIssue? doc.header label rules.models := by
    unfold modelIssue?
    rw [hnamed "model" (by decide)]
  have hdescription : descriptionIssue? header label rules.minDescriptionChars =
      descriptionIssue? doc.header label rules.minDescriptionChars := by
    unfold descriptionIssue?
    rw [hnamed "description" (by decide)]
  have hskills : skillsIssue? header label = skillsIssue? doc.header label := by
    unfold skillsIssue?
    rw [hnamed "skills" (by decide)]
  unfold checkDocument
  simp only [hrequired, hname, hmodel, hdescription, hskills]

/-- **The errors of a document.** They are, in this order, one for each required field that is absent
or empty, one if the name is a list of items, and one if there is a model and it is none of those
listed; all are errors of the schema, and each missing field has exactly one. There are at most four
warnings, each about another field, and none about a blank name or a blank description. Fields that are
neither required nor named by a rule make no difference. -/
theorem checkDocument_exact (hdistinct : rules.requiredFields.Nodup) :
    (checkDocument doc stem label rules).errors =
      (rules.requiredFields.filter (isMissing doc.header)).map (missingError doc.header label) ++
        (if hasListName doc.header then [listNameError label] else []) ++
        (unlistedModel? doc.header rules.models).toList.map (unlistedError label rules.models) ∧
    (∀ d ∈ (checkDocument doc stem label rules).errors, d.kind = .schema) ∧
    (∀ field, (checkDocument doc stem label rules).errors.count
        (missingError doc.header label field) =
      if field ∈ rules.requiredFields ∧ isMissing doc.header field = true then 1 else 0) ∧
    (checkDocument doc stem label rules).warningCount ≤ 4 ∧
    ((checkDocument doc stem label rules).warnings.map fun d => d.location.field).Nodup ∧
    (some "name" ∈ (checkDocument doc stem label rules).warnings.map (fun d => d.location.field) ↔
      ∃ name, doc.header.find? "name" = some (.scalar name) ∧ visibleLength name ≠ 0 ∧
        name ≠ stem) ∧
    (some "description" ∈
        (checkDocument doc stem label rules).warnings.map (fun d => d.location.field) ↔
      ∃ text, doc.header.find? "description" = some (.scalar text) ∧ 0 < visibleLength text ∧
        visibleLength text < rules.minDescriptionChars.toNat) ∧
    ∀ header : Descriptor,
      (∀ field, field ∈ rules.requiredFields ∨ field ∈ namedFields →
        header.find? field = doc.header.find? field) →
      checkDocument ⟨header, doc.body⟩ stem label rules = checkDocument doc stem label rules := by
  have herrors := errors_checkDocument doc stem label rules
  have hfields := fields_warnings_checkDocument doc stem label rules
  obtain ⟨hname, hdescription⟩ := mem_fields_warnings_iff doc stem label rules
  refine ⟨herrors, ?_, count_missingError doc stem label rules hdistinct, ?_, ?_, hname,
    hdescription, fun header => checkDocument_congr doc stem label rules⟩
  · intro d hd
    rw [herrors, List.mem_append, List.mem_append, List.mem_map, List.mem_map] at hd
    rcases hd with (⟨field, -, rfl⟩ | hd) | ⟨model, -, rfl⟩
    · rfl
    · split at hd
      · rw [List.mem_singleton.1 hd]
        rfl
      · cases hd
    · rfl
  · have hlength := hfields.length_le
    rwa [List.length_map] at hlength
  · exact hfields.nodup (by decide)

/-- Three required fields that other rules look at too, each of them there and each amiss. -/
def overlappingHeader : Descriptor :=
  .ofList [("model", .scalar " "), ("name", .list ["a"]), ("skills", .list []), ("tools", .scalar "x")]

def overlappingRules : AgentRules :=
  { AgentRules.default with requiredFields := ["model", "name", "description", "skills", "tools"] }

/-- One field is required, empty and unlisted at once, another is a list, and the order is that of the
rules. -/
theorem checkDocument_exact_of_overlaps :
    overlappingRules.requiredFields.Nodup ∧
      (checkDocument ⟨overlappingHeader, ""⟩ "a" "a.md" overlappingRules).errors =
        ["model", "description", "skills"].map (missingError overlappingHeader "a.md") ++
          [listNameError "a.md",
            unlistedError "a.md" overlappingRules.models (.scalar " ")] := by
  have hdistinct : overlappingRules.requiredFields.Nodup := by decide
  obtain ⟨herrors, -⟩ :=
    checkDocument_exact ⟨overlappingHeader, ""⟩ "a" "a.md" overlappingRules hdistinct
  have hmissing : overlappingRules.requiredFields.filter (isMissing overlappingHeader) =
      ["model", "description", "skills"] := by
    decide +kernel
  have hname : hasListName overlappingHeader = true := by decide +kernel
  have hmodel : unlistedModel? overlappingHeader overlappingRules.models = some (.scalar " ") := by
    decide +kernel
  rw [hmissing, hname, hmodel] at herrors
  exact ⟨hdistinct, herrors⟩

end Preflight.Agents

import Mathlib.Data.List.Nodup
import Preflight.Agents.Schema
import Preflight.Proofs.Diagnostic.Errors

/-!
# What the schema says about a document

The rules of the schema look at fields that may be absent, empty or of the wrong shape,
and a required field may be one that another rule looks at too. Each rule is given here in
one equation that says when it speaks and what it says. Put together, they tell all errors
of a document (`errors_checkDocument`) and all warnings (`warnings_checkDocument`), of
which there is at most one about the name, the description, the skills and the body each
(`fields_warnings_checkDocument`).
-/

set_option autoImplicit false

namespace Preflight.Agents

open Preflight.Header

/-! ### When a rule speaks and what it says -/

/-- Whether a field is absent or says nothing. -/
def isMissing (header : Descriptor) (field : String) : Bool :=
  (header.find? field).all FieldValue.isEmpty

/-- The error about a missing field. -/
def missingError (header : Descriptor) (label field : String) : Diagnostic :=
  .error .schema
    (if header.contains field then s!"missing required field '{field}' (present but empty)"
      else s!"missing required field '{field}'")
    (fieldOf label field)

/-- The rule on required fields speaks exactly of the missing ones. -/
theorem requiredIssue?_eq (header : Descriptor) (label field : String) :
    requiredIssue? header label field =
      if isMissing header field then some (missingError header label field) else none := by
  unfold requiredIssue? isMissing missingError Table.contains
  cases header.find? field <;> rfl

/-- A field has a text exactly if it is bound to a scalar. -/
theorem bind_scalar?_eq_some_iff {value : Option FieldValue} {text : String} :
    value.bind FieldValue.scalar? = some text ↔ value = some (.scalar text) := by
  cases value with
  | none => simp
  | some value => cases value <;> simp [FieldValue.scalar?]

/-- Whether the name is a list of items. -/
def hasListName (header : Descriptor) : Bool :=
  match header.find? "name" with
  | some (.list (_ :: _)) => true
  | _ => false

/-- The name, if it is a text that is neither blank nor the name of the file. -/
def mismatchedName? (header : Descriptor) (stem : String) : Option String :=
  ((header.find? "name").bind FieldValue.scalar?).filter fun name =>
    visibleLength name ≠ 0 ∧ name ≠ stem

/-- A name mismatches if it can be seen and is not that of the file. -/
theorem mismatchedName?_eq_some_iff {header : Descriptor} {stem name : String} :
    mismatchedName? header stem = some name ↔
      header.find? "name" = some (.scalar name) ∧ visibleLength name ≠ 0 ∧ name ≠ stem := by
  rw [mismatchedName?, Option.filter_eq_some_iff, bind_scalar?_eq_some_iff, decide_eq_true_eq]

/-- The error about a name with items. -/
def listNameError (label : String) : Diagnostic :=
  .error .schema "field 'name' must be a single value, found a list" (fieldOf label "name")

/-- The warning about a name that is not that of the file. -/
def mismatchWarning (stem label name : String) : Diagnostic :=
  .warning .syntactic s!"name '{name}' does not match file name '{stem}'" (fieldOf label "name")

/-- The rule on names speaks of lists first and of mismatches then. -/
theorem nameIssue?_eq (header : Descriptor) (stem label : String) :
    nameIssue? header stem label =
      if hasListName header then some (listNameError label)
      else (mismatchedName? header stem).map (mismatchWarning stem label) := by
  unfold nameIssue? hasListName mismatchedName?
  cases header.find? "name" with
  | none => rfl
  | some value =>
    cases value with
    | scalar name =>
      by_cases h : visibleLength name ≠ 0 ∧ name ≠ stem
      · simp [FieldValue.scalar?, h, Option.filter, mismatchWarning]
      · simp [FieldValue.scalar?, h, Option.filter]
    | list items => cases items <;> rfl

/-- The model, if there is one and it is none of those listed. -/
def unlistedModel? (header : Descriptor) (models : List String) : Option FieldValue :=
  (header.find? "model").filter fun model => model ∉ models.map FieldValue.scalar

/-- The error about a model that is not listed. -/
def unlistedError (label : String) (models : List String) (model : FieldValue) : Diagnostic :=
  let shown := shownModel model
  let known := ", ".intercalate models
  .error .schema s!"invalid model '{shown}': expected one of {known}" (fieldOf label "model")

/-- The rule on models speaks exactly of the unlisted ones. -/
theorem modelIssue?_eq (header : Descriptor) (label : String) (models : List String) :
    modelIssue? header label models =
      (unlistedModel? header models).map (unlistedError label models) := by
  unfold modelIssue? unlistedModel?
  cases header.find? "model" with
  | none => rfl
  | some model =>
    have hlisted : model.scalar?.any models.contains = true ↔ model ∈ models.map FieldValue.scalar := by
      cases model <;> simp [FieldValue.scalar?]
    by_cases h : model ∈ models.map FieldValue.scalar
    · simp [hlisted.2 h, h, Option.filter]
    · have hnot : model.scalar?.any models.contains = false := by
        rw [← Bool.not_eq_true, hlisted]
        exact h
      simp [hnot, h, Option.filter, unlistedError]

/-- The description, if it is a text that is not blank but shorter than it should be. -/
def shortDescription? (header : Descriptor) (least : UInt64) : Option String :=
  ((header.find? "description").bind FieldValue.scalar?).filter fun description =>
    0 < visibleLength description ∧ visibleLength description < least.toNat

/-- A description is short if it can be seen and has fewer characters than are asked for. -/
theorem shortDescription?_eq_some_iff {header : Descriptor} {least : UInt64} {text : String} :
    shortDescription? header least = some text ↔
      header.find? "description" = some (.scalar text) ∧
        0 < visibleLength text ∧ visibleLength text < least.toNat := by
  rw [shortDescription?, Option.filter_eq_some_iff, bind_scalar?_eq_some_iff, decide_eq_true_eq]

/-- The warning about a description that is too short. -/
def shortWarning (label : String) (least : UInt64) (description : String) : Diagnostic :=
  .warning .advisory
    s!"description is {visibleLength description} characters; at least {least.toNat} recommended"
    (fieldOf label "description")

/-- The rule on descriptions speaks exactly of the short ones. -/
theorem descriptionIssue?_eq (header : Descriptor) (label : String) (least : UInt64) :
    descriptionIssue? header label least =
      (shortDescription? header least).map (shortWarning label least) := by
  unfold descriptionIssue? shortDescription?
  cases header.find? "description" with
  | none => rfl
  | some value =>
    cases value with
    | scalar description =>
      by_cases h : 0 < visibleLength description ∧ visibleLength description < least.toNat
      · simp [FieldValue.scalar?, h, Option.filter, shortWarning]
      · simp [FieldValue.scalar?, h, Option.filter]
    | list items => rfl

/-- A diagnostic is a warning about one field of a file. -/
structure IsWarningAt (label field : String) (d : Diagnostic) : Prop where
  severity : d.severity = .warning
  location : d.location = fieldOf label field

/-- The rule on skills gives warnings only, at its field. -/
theorem isWarningAt_skillsIssue? {header : Descriptor} {label : String} :
    ∀ d ∈ skillsIssue? header label, IsWarningAt label "skills" d := by
  intro d hd
  unfold skillsIssue? at hd
  split at hd
  · split at hd
    · cases hd
      exact ⟨rfl, rfl⟩
    · cases hd
  · cases hd

/-- The rule on bodies gives warnings only, at its field. -/
theorem isWarningAt_bodyIssue? {body label : String} {least : UInt64} :
    ∀ d ∈ bodyIssue? body label least, IsWarningAt label "body" d := by
  intro d hd
  unfold bodyIssue? at hd
  dsimp only at hd
  split at hd
  · cases hd
    exact ⟨rfl, rfl⟩
  · cases hd

/-! ### All errors and all warnings -/

section

variable {label field : String}

/-- A warning at a field is no error. -/
theorem IsWarningAt.isError {d : Diagnostic} (h : IsWarningAt label field d) : d.isError = false := by
  unfold Diagnostic.isError
  rw [h.severity]
  rfl

/-- A warning at a field is a warning. -/
theorem IsWarningAt.isWarning {d : Diagnostic} (h : IsWarningAt label field d) :
    d.isWarning = true := by
  unfold Diagnostic.isWarning
  rw [h.severity]
  rfl

variable {issue : Option Diagnostic} (h : ∀ d ∈ issue, IsWarningAt label field d)

include h

/-- A rule that only warns adds nothing to the errors. -/
theorem filter_isError_of_isWarningAt : issue.toList.filter Diagnostic.isError = [] := by
  rw [List.filter_eq_nil_iff]
  intro d hd
  simp [(h d (Option.mem_toList.1 hd)).isError]

/-- All that a rule adds that only warns are warnings. -/
theorem filter_isWarning_of_isWarningAt :
    issue.toList.filter Diagnostic.isWarning = issue.toList := by
  rw [List.filter_eq_self]
  exact fun d hd => (h d (Option.mem_toList.1 hd)).isWarning

/-- A rule that only warns does so at most once, at its field. -/
theorem fields_sublist_of_isWarningAt :
    (issue.toList.map fun d => d.location.field).Sublist [some field] := by
  cases issue with
  | none => exact List.nil_sublist _
  | some d =>
    rw [Option.toList_some, List.map_singleton, (h d rfl).location]
    exact List.Sublist.refl _

end

/-- A warning that is made from something that may be absent stays one at its field. -/
theorem isWarningAt_map {α : Type} {label field : String} {warning : α → Diagnostic}
    (h : ∀ a, IsWarningAt label field (warning a)) (a : Option α) :
    ∀ d ∈ a.map warning, IsWarningAt label field d := by
  intro d hd
  obtain ⟨a, -, rfl⟩ := Option.map_eq_some_iff.1 hd
  exact h a

/-- A mismatched name is warned about at the name. -/
theorem isWarningAt_mismatchWarning (stem label name : String) :
    IsWarningAt label "name" (mismatchWarning stem label name) :=
  ⟨rfl, rfl⟩

/-- A short description is warned about at the description. -/
theorem isWarningAt_shortWarning (label : String) (least : UInt64) (description : String) :
    IsWarningAt label "description" (shortWarning label least description) :=
  ⟨rfl, rfl⟩

/-- A name is not a list and a text at once. -/
theorem mismatchedName?_of_hasListName {header : Descriptor} (h : hasListName header = true)
    (stem : String) : mismatchedName? header stem = none := by
  unfold hasListName at h
  split at h
  · next items hname =>
    rw [mismatchedName?, hname]
    rfl
  · cases h

section

variable (doc : Document) (stem label : String) (rules : AgentRules)

/-- The errors of a document: one for each required field that is missing, in the order of these
fields, then one about a name with items, then one about a model that is not listed. -/
theorem errors_checkDocument :
    (checkDocument doc stem label rules).errors =
      (rules.requiredFields.filter (isMissing doc.header)).map (missingError doc.header label) ++
        (if hasListName doc.header then [listNameError label] else []) ++
        (unlistedModel? doc.header rules.models).toList.map (unlistedError label rules.models) := by
  have hrequired : (rules.requiredFields.filterMap (requiredIssue? doc.header label)).filter
      Diagnostic.isError =
        (rules.requiredFields.filter (isMissing doc.header)).map (missingError doc.header label) := by
    have hmissing : rules.requiredFields.filterMap (requiredIssue? doc.header label) =
        (rules.requiredFields.filter (isMissing doc.header)).map
          (missingError doc.header label) := by
      rw [← List.filterMap_eq_map, List.filterMap_filter]
      exact List.filterMap_congr fun field _ => requiredIssue?_eq doc.header label field
    rw [hmissing, List.filter_eq_self]
    exact List.forall_mem_map.2 fun _ _ => rfl
  have hname : (nameIssue? doc.header stem label).toList.filter Diagnostic.isError =
      if hasListName doc.header then [listNameError label] else [] := by
    rw [nameIssue?_eq]
    split
    · rfl
    · exact filter_isError_of_isWarningAt
        (isWarningAt_map (isWarningAt_mismatchWarning stem label) _)
  have hmodel : (modelIssue? doc.header label rules.models).toList.filter Diagnostic.isError =
      (unlistedModel? doc.header rules.models).toList.map (unlistedError label rules.models) := by
    rw [modelIssue?_eq]
    cases unlistedModel? doc.header rules.models <;> rfl
  have hdescription := filter_isError_of_isWarningAt
    (isWarningAt_map (isWarningAt_shortWarning label rules.minDescriptionChars)
      (shortDescription? doc.header rules.minDescriptionChars))
  simp only [Outcome.errors, checkDocument, List.filter_append, hrequired, hname, hmodel,
    descriptionIssue?_eq, hdescription, filter_isError_of_isWarningAt isWarningAt_skillsIssue?,
    filter_isError_of_isWarningAt isWarningAt_bodyIssue?, List.append_nil]

/-- The warnings about a document. -/
theorem warnings_checkDocument :
    (checkDocument doc stem label rules).warnings =
      ((mismatchedName? doc.header stem).map (mismatchWarning stem label)).toList ++
        (((shortDescription? doc.header rules.minDescriptionChars).map
            (shortWarning label rules.minDescriptionChars)).toList ++
          ((skillsIssue? doc.header label).toList ++
            (bodyIssue? doc.body label rules.minBodyChars).toList)) := by
  have hrequired : (rules.requiredFields.filterMap (requiredIssue? doc.header label)).filter
      Diagnostic.isWarning = [] := by
    rw [List.filter_eq_nil_iff]
    intro d hd
    obtain ⟨field, -, hissue⟩ := List.mem_filterMap.1 hd
    rw [requiredIssue?_eq, Option.ite_none_right_eq_some, Option.some.injEq] at hissue
    rw [← hissue.2]
    exact Bool.false_ne_true
  have hname : (nameIssue? doc.header stem label).toList.filter Diagnostic.isWarning =
      ((mismatchedName? doc.header stem).map (mismatchWarning stem label)).toList := by
    rw [nameIssue?_eq]
    split
    · next hlist =>
      rw [mismatchedName?_of_hasListName hlist]
      rfl
    · exact filter_isWarning_of_isWarningAt
        (isWarningAt_map (isWarningAt_mismatchWarning stem label) _)
  have hmodel : (modelIssue? doc.header label rules.models).toList.filter Diagnostic.isWarning =
      [] := by
    rw [modelIssue?_eq]
    cases unlistedModel? doc.header rules.models <;> rfl
  have hdescription := filter_isWarning_of_isWarningAt
    (isWarningAt_map (isWarningAt_shortWarning label rules.minDescriptionChars)
      (shortDescription? doc.header rules.minDescriptionChars))
  simp only [Outcome.warnings, checkDocument, List.filter_append, hrequired, hname, hmodel,
    descriptionIssue?_eq, hdescription, filter_isWarning_of_isWarningAt isWarningAt_skillsIssue?,
    filter_isWarning_of_isWarningAt isWarningAt_bodyIssue?, List.nil_append, List.append_assoc]

/-- There is at most one warning about each of four fields. -/
theorem fields_warnings_checkDocument :
    ((checkDocument doc stem label rules).warnings.map fun d => d.location.field).Sublist
      [some "name", some "description", some "skills", some "body"] := by
  rw [warnings_checkDocument, List.map_append, List.map_append, List.map_append]
  exact (fields_sublist_of_isWarningAt (isWarningAt_map (isWarningAt_mismatchWarning stem label) _)).append
    ((fields_sublist_of_isWarningAt (isWarningAt_map (isWarningAt_shortWarning label _) _)).append
      ((fields_sublist_of_isWarningAt isWarningAt_skillsIssue?).append
        (fields_sublist_of_isWarningAt isWarningAt_bodyIssue?)))

end

end Preflight.Agents

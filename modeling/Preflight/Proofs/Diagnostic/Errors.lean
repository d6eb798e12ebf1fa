import Preflight.Diagnostic.Outcome

/-!
# Errors of combined outcomes

An outcome has an error exactly if one of the parts that it is put together from
has one, so a check is free of errors if all its parts are.
-/

set_option autoImplicit false

namespace Preflight

/-- An error is one. -/
@[simp] theorem Diagnostic.isError_error (kind : IssueKind) (message : String) (l : Location) :
    (Diagnostic.error kind message l).isError = true := rfl

/-- A warning is no error. -/
@[simp] theorem Diagnostic.isError_warning (kind : IssueKind) (message : String) (l : Location) :
    (Diagnostic.warning kind message l).isError = false := rfl

/-- A remark is no error. -/
@[simp] theorem Diagnostic.isError_info (message : String) (l : Location) :
    (Diagnostic.info message l).isError = false := rfl

namespace Outcome

/-- A property of some diagnostic of an optional one is that of the one there is. -/
theorem any_toList (d : Option Diagnostic) (p : Diagnostic → Bool) : d.toList.any p = d.any p := by
  cases d <;> simp

/-- An outcome of one diagnostic has errors exactly if this is one. -/
@[simp] theorem hasErrors_single (d : Diagnostic) : (single d).hasErrors = d.isError := by
  simp [hasErrors, single]

/-- An outcome of at most one diagnostic has errors exactly if there is one and it is an error. -/
@[simp] theorem hasErrors_ofOption (d : Option Diagnostic) :
    (ofOption d).hasErrors = d.any Diagnostic.isError := by
  rw [hasErrors, ofOption, any_toList]

/-- Two outcomes have errors exactly if one of them has. -/
@[simp] theorem hasErrors_append (a b : Outcome) :
    (a ++ b).hasErrors = (a.hasErrors || b.hasErrors) := by
  simp [hasErrors]

/-- Outcomes one after the other are free of errors exactly if each of them is. -/
theorem hasErrors_concat_eq_false_iff (outcomes : List Outcome) :
    (concat outcomes).hasErrors = false ↔ ∀ o ∈ outcomes, o.hasErrors = false := by
  simp [hasErrors, concat, List.any_flatMap]

/-- A check of each element of a list, with its place in the list, is free of errors exactly if the
check of each element is, as long as the place does not decide. -/
theorem hasErrors_concat_zipIdx_eq_false_iff {α : Type} (l : List α) (check : α → Nat → Outcome)
    {P : α → Prop} (h : ∀ a i, (check a i).hasErrors = false ↔ P a) :
    (concat (l.zipIdx.map fun e => check e.1 e.2)).hasErrors = false ↔ ∀ a ∈ l, P a := by
  rw [hasErrors_concat_eq_false_iff, List.forall_mem_map]
  constructor
  · intro hall a ha
    obtain ⟨i, hi, rfl⟩ := List.mem_iff_getElem.1 ha
    exact (h _ _).1 (hall (l[i], i) (List.mk_mem_zipIdx_iff_getElem?.2 (by simp [hi])))
  · intro hall e he
    exact (h _ _).2 (hall e.1 (List.fst_mem_of_mem_zipIdx he))

/-! ### Numbers of errors and warnings -/

/-- The errors of two outcomes add up. -/
@[simp] theorem errorCount_append (a b : Outcome) :
    (a ++ b).errorCount = a.errorCount + b.errorCount := by
  simp only [errorCount, errors, diagnostics_append, List.filter_append, List.length_append]

/-- The warnings of two outcomes add up. -/
@[simp] theorem warningCount_append (a b : Outcome) :
    (a ++ b).warningCount = a.warningCount + b.warningCount := by
  simp only [warningCount, warnings, diagnostics_append, List.filter_append, List.length_append]

/-- If there are errors only, all diagnostics are counted as errors. -/
theorem counts_of_forall_isError {o : Outcome} (h : ∀ d ∈ o.diagnostics, d.isError = true) :
    o.errorCount = o.diagnostics.length ∧ o.warningCount = 0 := by
  refine ⟨congrArg List.length (List.filter_eq_self.2 h), congrArg List.length
    (List.filter_eq_nil_iff.2 fun d hd => ?_)⟩
  rw [Diagnostic.isWarning, beq_iff_eq.1 (h d hd)]
  exact Bool.false_ne_true

/-- If there are warnings only, all diagnostics are counted as warnings. -/
theorem counts_of_forall_isWarning {o : Outcome} (h : ∀ d ∈ o.diagnostics, d.isWarning = true) :
    o.errorCount = 0 ∧ o.warningCount = o.diagnostics.length := by
  refine ⟨congrArg List.length (List.filter_eq_nil_iff.2 fun d hd => ?_),
    congrArg List.length (List.filter_eq_self.2 h)⟩
  rw [Diagnostic.isError, beq_iff_eq.1 (h d hd)]
  exact Bool.false_ne_true

end Outcome

end Preflight

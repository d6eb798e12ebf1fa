import Preflight.Proofs.Diagnostic.Places

/-!
# What is shown of a location

A report shows the scope and the field of a location as they are, beside numbers and one
of four sources. A property that the scope and the field are to have (`Location.Shows`) is
followed through a check: each part of a check is handed a place with it, and may add a
field that has it.
-/

set_option autoImplicit false

namespace Preflight

variable {p : String → Prop}

namespace Location

/-- The sources that are checked: descriptors, their manifest, and the two sources of hooks. -/
def sources : List String := ["agents", "manifest", "global", "project"]

/-- The source is one that is checked, and the scope and the field, as far as they are there, have a
property. -/
structure Shows (p : String → Prop) (l : Location) : Prop where
  source : l.source ∈ sources
  scope : ∀ scope ∈ l.scope, p scope
  field : ∀ field ∈ l.field, p field

variable {l place : Location}

/-- A location with a fixed source alone shows no text of a project. -/
theorem shows_ofSource {source : String} (h : source ∈ sources) : (ofSource source).Shows p where
  source := h
  scope := by rintro _ ⟨⟩
  field := by rintro _ ⟨⟩

/-- A location in a scope shows the scope. -/
theorem Shows.inScope (h : l.Shows p) {scope : String} (hscope : p scope) :
    (l.inScope scope).Shows p where
  source := h.source
  scope := by
    rintro _ ⟨rfl⟩
    exact hscope
  field := h.field

/-- A location at a field shows the field. -/
theorem Shows.atField (h : l.Shows p) {field : String} (hfield : p field) :
    (l.atField field).Shows p where
  source := h.source
  scope := h.scope
  field := by
    rintro _ ⟨rfl⟩
    exact hfield

/-- The position of an entry is no text of a project. -/
theorem Shows.atEntry (h : l.Shows p) (i : Nat) : (l.atEntry i).Shows p :=
  ⟨h.source, h.scope, h.field⟩

/-- The position of an action is no text of a project. -/
theorem Shows.atAction (h : l.Shows p) (j : Nat) : (l.atAction j).Shows p :=
  ⟨h.source, h.scope, h.field⟩

/-- The path of a location is not in the part that is shown. -/
theorem Shows.onPath (h : l.Shows p) (path : Path) : (l.onPath path).Shows p :=
  ⟨h.source, h.scope, h.field⟩

/-- A location at a place shows what the place shows. -/
theorem IsAt.shows (h : l.IsAt place) (hplace : place.Shows p) : l.Shows p where
  source := h.within.source ▸ hplace.source
  scope := h.scope_eq ▸ hplace.scope
  field := h.field_eq ▸ hplace.field

/-- What a location shows satisfies what follows from its property. -/
theorem Shows.imp (h : l.Shows p) {q : String → Prop} (hpq : ∀ text, p text → q text) : l.Shows q where
  source := h.source
  scope scope hscope := hpq scope (h.scope scope hscope)
  field field hfield := hpq field (h.field field hfield)

end Location

namespace Outcome

/-- All diagnostics show only texts with a property. -/
def Shows (p : String → Prop) (o : Outcome) : Prop :=
  ∀ d ∈ o.diagnostics, d.location.Shows p

/-- One diagnostic shows what its location shows. -/
theorem shows_single {d : Diagnostic} (h : d.location.Shows p) : (single d).Shows p := by
  intro e he
  rw [List.mem_singleton.1 he]
  exact h

/-- At most one diagnostic shows what its location shows. -/
theorem shows_ofOption {d : Option Diagnostic} (h : ∀ e ∈ d, e.location.Shows p) :
    (ofOption d).Shows p := by
  intro e he
  exact h e (Option.mem_toList.1 he)

/-- Two outcomes show what each of them shows. -/
theorem Shows.append {a b : Outcome} (ha : a.Shows p) (hb : b.Shows p) : (a ++ b).Shows p := by
  intro d hd
  rw [diagnostics_append] at hd
  exact (List.mem_append.1 hd).elim (ha d) (hb d)

/-- Outcomes one after the other show what each of them shows. -/
theorem shows_concat {outcomes : List Outcome} (h : ∀ o ∈ outcomes, o.Shows p) :
    (concat outcomes).Shows p := by
  intro d hd
  obtain ⟨o, ho, hdo⟩ := List.mem_flatMap.1 hd
  exact h o ho d hdo

/-- A check of all entries shows what the check of one entry shows. -/
theorem shows_concat_zipIdx {α : Type} (check : α → Nat → Outcome) (h : ∀ a i, (check a i).Shows p)
    (l : List α) : (concat (l.zipIdx.map fun e => check e.1 e.2)).Shows p :=
  shows_concat (List.forall_mem_map.2 fun e _ => h e.1 e.2)

end Outcome

end Preflight

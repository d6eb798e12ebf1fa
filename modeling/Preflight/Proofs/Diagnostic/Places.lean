import Mathlib.Algebra.GroupWithZero.Nat
import Mathlib.Data.List.Nodup
import Preflight.Diagnostic.Outcome

/-!
# Where diagnostics point

A check is handed the place that it looks at, and all that it says points to this
place or into it: the source stays, and so do the scope, the entry and the action
as far as the place has them. So what one check says can be told apart from what
its neighbours say by the location alone.

A list of checks that is changed in one element says the same as before, apart from
what this element is about (`filter_concat_zipIdx_set`), and checks of different
places never point to the same place (`distinct_concat_map`).
-/

set_option autoImplicit false

namespace Preflight

/-- What a location says apart from the source and the path. -/
structure Coordinates where
  scope : Option String
  entry : Option Nat
  action : Option Nat
  field : Option String
deriving Repr, DecidableEq

namespace Location

def coordinates (l : Location) : Coordinates :=
  ⟨l.scope, l.entry, l.action, l.field⟩

/-- The location is `place` or a part of it. -/
structure Within (l place : Location) : Prop where
  source : l.source = place.source
  scope : ∀ scope, place.scope = some scope → l.scope = some scope
  entry : ∀ i, place.entry = some i → l.entry = some i
  action : ∀ j, place.action = some j → l.action = some j

variable {l place : Location}

/-- A place is within itself. -/
theorem within_self (place : Location) : place.Within place :=
  ⟨rfl, fun _ h => h, fun _ h => h, fun _ h => h⟩

/-- A field of a place is within it. -/
theorem within_atField (place : Location) (field : String) : (place.atField field).Within place :=
  ⟨rfl, fun _ h => h, fun _ h => h, fun _ h => h⟩

/-- Naming the file of a place stays within it. -/
theorem within_onPath (place : Location) (path : Path) : (place.onPath path).Within place :=
  ⟨rfl, fun _ h => h, fun _ h => h, fun _ h => h⟩

/-- A place within a part of another is within the other. -/
theorem Within.trans {m : Location} (h : l.Within m) (hm : m.Within place) : l.Within place where
  source := h.source.trans hm.source
  scope := fun s hs => h.scope s (hm.scope s hs)
  entry := fun i hi => h.entry i (hm.entry i hi)
  action := fun j hj => h.action j (hm.action j hj)

/-- A place within an action is within the entry of the action. -/
theorem within_of_atAction {j : Nat} (hplace : place.action = none)
    (h : l.Within (place.atAction j)) : l.Within place where
  source := h.source
  scope := h.scope
  entry := h.entry
  action := by
    intro k hk
    rw [hplace] at hk
    cases hk

/-- The location is `place` itself, up to the path of the file that it is about. -/
def IsAt (l place : Location) : Prop :=
  { l with path := place.path } = place

/-- Locations at one place have its coordinates. -/
theorem IsAt.coordinates_eq (h : l.IsAt place) : l.coordinates = place.coordinates := by
  rw [← h]
  rfl

/-- A location at a place has its scope. -/
theorem IsAt.scope_eq (h : l.IsAt place) : l.scope = place.scope :=
  congrArg Coordinates.scope h.coordinates_eq

/-- A location at a place has its entry. -/
theorem IsAt.entry_eq (h : l.IsAt place) : l.entry = place.entry :=
  congrArg Coordinates.entry h.coordinates_eq

/-- A location at a place has its field. -/
theorem IsAt.field_eq (h : l.IsAt place) : l.field = place.field :=
  congrArg Coordinates.field h.coordinates_eq

/-- A field outside all actions has no action in its location. -/
theorem action_eq_none_of_isAt {field : String} (hplace : place.action = none)
    (h : l.IsAt (place.atField field)) : l.action = none :=
  (congrArg Coordinates.action h.coordinates_eq).trans hplace

/-- Locations at two fields of one place differ in their coordinates. -/
theorem coordinates_ne_of_isAt {m : Location} {field field' : String} (hne : field ≠ field')
    (hl : l.IsAt (place.atField field)) (hm : m.IsAt (place.atField field')) :
    l.coordinates ≠ m.coordinates := by
  intro heq
  rw [hl.coordinates_eq, hm.coordinates_eq] at heq
  exact hne (Option.some.inj (congrArg Coordinates.field heq))

/-- A location at a place is within it. -/
theorem IsAt.within (h : l.IsAt place) : l.Within place := by
  rw [← h]
  exact ⟨rfl, fun _ h => h, fun _ h => h, fun _ h => h⟩

end Location

namespace Outcome

/-- All diagnostics point to a place or into it. -/
def Within (o : Outcome) (place : Location) : Prop :=
  ∀ d ∈ o.diagnostics, d.location.Within place

variable {place : Location}

/-- One diagnostic stays within a place if its location does. -/
theorem within_single {d : Diagnostic} (h : d.location.Within place) : (single d).Within place := by
  intro e he
  have heq : e = d := List.mem_singleton.1 he
  rw [heq]
  exact h

/-- At most one diagnostic stays within a place if its location does. -/
theorem within_ofOption {d : Option Diagnostic} (h : ∀ e ∈ d, e.location.Within place) :
    (ofOption d).Within place := by
  intro e he
  exact h e (Option.mem_toList.1 he)

/-- Two outcomes within a place stay within it together. -/
theorem within_append {a b : Outcome} (ha : a.Within place) (hb : b.Within place) :
    (a ++ b).Within place := by
  intro d hd
  rw [diagnostics_append] at hd
  rcases List.mem_append.1 hd with h | h
  · exact ha d h
  · exact hb d h

/-! ### Checks of the elements of a list -/

variable {α : Type}

/-- A diagnostic of a check of all entries is one about an entry, with its position. -/
theorem exists_of_mem_concat_zipIdx (check : α → Nat → Outcome) {l : List α} {d : Diagnostic}
    (hd : d ∈ (concat (l.zipIdx.map fun e => check e.1 e.2)).diagnostics) :
    ∃ i a, l[i]? = some a ∧ d ∈ (check a i).diagnostics := by
  obtain ⟨o, ho, hdo⟩ := List.mem_flatMap.1 hd
  obtain ⟨⟨a, i⟩, hmem, rfl⟩ := List.mem_map.1 ho
  exact ⟨i, a, List.mk_mem_zipIdx_iff_getElem?.1 hmem, hdo⟩

/-- What is said about one entry is said by the check of all entries. -/
theorem mem_concat_zipIdx (check : α → Nat → Outcome) {l : List α} {i : Nat} {a : α} {d : Diagnostic}
    (h : l[i]? = some a) (hd : d ∈ (check a i).diagnostics) :
    d ∈ (concat (l.zipIdx.map fun e => check e.1 e.2)).diagnostics := by
  have hmem : (a, i) ∈ l.zipIdx := List.mk_mem_zipIdx_iff_getElem?.2 h
  exact List.mem_flatMap_of_mem (List.mem_map_of_mem hmem) hd

/-- If the place in the list makes no difference to how much a check says, neither does the order. -/
theorem length_concat_zipIdx (check : α → Nat → Outcome) (l : List α) {count : α → Nat}
    (h : ∀ a i, (check a i).diagnostics.length = count a) :
    (concat (l.zipIdx.map fun e => check e.1 e.2)).diagnostics.length = (l.map count).sum := by
  have hcounts : (l.zipIdx.map fun e => (check e.1 e.2).diagnostics.length) =
      (l.zipIdx.map Prod.fst).map count := by
    rw [List.map_map]
    exact List.map_congr_left fun e _ => h e.1 e.2
  rw [List.zipIdx_map_fst] at hcounts
  rw [concat, List.flatMap_map, List.length_flatMap, hcounts]

/-- Selecting from outcomes one after the other selects from each of them. -/
theorem filter_concat_map (outcomes : α → Outcome) (l : List α) (p : Diagnostic → Bool) :
    (concat (l.map outcomes)).diagnostics.filter p =
      l.flatMap fun a => (outcomes a).diagnostics.filter p := by
  unfold concat
  rw [List.flatMap_map, List.filter_flatMap]

/-- With another element in one place, the checks of a list say the same, up to diagnostics for
which the old and the new element agree. -/
theorem filter_concat_zipIdx_set (check : α → Nat → Outcome) (p : Diagnostic → Bool) (l : List α)
    (i : Nat) (new : α)
    (h : ∀ old, l[i]? = some old →
      (check new i).diagnostics.filter p = (check old i).diagnostics.filter p) :
    (concat ((l.set i new).zipIdx.map fun e => check e.1 e.2)).diagnostics.filter p =
      (concat (l.zipIdx.map fun e => check e.1 e.2)).diagnostics.filter p := by
  -- counting starts anywhere: the rest of a list is counted on from its head
  have hfrom : ∀ (l : List α) (i n : Nat),
      (∀ old, l[i]? = some old →
        (check new (n + i)).diagnostics.filter p = (check old (n + i)).diagnostics.filter p) →
      ((l.set i new).zipIdx n).flatMap (fun e => (check e.1 e.2).diagnostics.filter p) =
        (l.zipIdx n).flatMap fun e => (check e.1 e.2).diagnostics.filter p := by
    intro l
    induction l with
    | nil =>
      intro i n _
      rfl
    | cons a l ih =>
      intro i n hold
      cases i with
      | zero =>
        have hhead := hold a rfl
        simp only [Nat.add_zero] at hhead
        simp only [List.set_cons_zero, List.zipIdx_cons, List.flatMap_cons, hhead]
      | succ i =>
        have htail := ih i (n + 1) (by
          intro old hget
          have hsame := hold old (by simpa using hget)
          rwa [Nat.add_right_comm, Nat.add_assoc])
        simp only [List.set_cons_succ, List.zipIdx_cons, List.flatMap_cons, htail]
  rw [filter_concat_map (fun e : α × Nat => check e.1 e.2),
    filter_concat_map (fun e : α × Nat => check e.1 e.2)]
  exact hfrom l i 0 (by simpa only [Nat.zero_add] using h)

/-! ### Diagnostics that point to different places -/

/-- No two diagnostics of the outcome have the same coordinates. -/
def Distinct (o : Outcome) : Prop :=
  (o.diagnostics.map fun d => d.location.coordinates).Nodup

/-- One diagnostic has coordinates of its own. -/
theorem distinct_single (d : Diagnostic) : (single d).Distinct :=
  List.nodup_singleton _

/-- At most one diagnostic has coordinates of its own. -/
theorem distinct_ofOption (d : Option Diagnostic) : (ofOption d).Distinct := by
  cases d with
  | none => exact List.nodup_nil
  | some d => exact distinct_single d

/-- Outcomes with distinct coordinates stay so together if they share none. -/
theorem distinct_append {a b : Outcome} (ha : a.Distinct) (hb : b.Distinct)
    (hab : ∀ d ∈ a.diagnostics, ∀ e ∈ b.diagnostics,
      d.location.coordinates ≠ e.location.coordinates) : (a ++ b).Distinct := by
  unfold Distinct
  rw [diagnostics_append, List.map_append, List.nodup_append]
  refine ⟨ha, hb, ?_⟩
  intro x hx y hy
  obtain ⟨d, hd, rfl⟩ := List.mem_map.1 hx
  obtain ⟨e, he, rfl⟩ := List.mem_map.1 hy
  exact hab d hd e he

/-- Checks of different places are told apart by the part of the coordinates that names the place. -/
theorem distinct_concat_map {κ : Type} {l : List α} {check : α → Outcome} {key : α → κ}
    (part : Coordinates → κ) (hkeys : (l.map key).Nodup) (hcheck : ∀ a ∈ l, (check a).Distinct)
    (hplace : ∀ a ∈ l, ∀ d ∈ (check a).diagnostics, part d.location.coordinates = key a) :
    (concat (l.map check)).Distinct := by
  unfold Distinct concat
  rw [List.flatMap_map, List.map_flatMap]
  apply List.pairwise_flatMap.2
  refine ⟨hcheck, (List.pairwise_map.1 hkeys).imp_of_mem ?_⟩
  intro a b ha hb hne x hx y hy hxy
  obtain ⟨d, hd, rfl⟩ := List.mem_map.1 hx
  obtain ⟨e, he, rfl⟩ := List.mem_map.1 hy
  apply hne
  rw [← hplace a ha d hd, ← hplace b hb e he, hxy]

/-- Checks of the elements of a list are told apart by the place in the list. -/
theorem distinct_concat_zipIdx (check : α → Nat → Outcome) (part : Coordinates → Option Nat)
    (hcheck : ∀ a i, (check a i).Distinct)
    (hplace : ∀ a i, ∀ d ∈ (check a i).diagnostics, part d.location.coordinates = some i)
    (l : List α) : (concat (l.zipIdx.map fun e => check e.1 e.2)).Distinct := by
  have hkeys : ((l.zipIdx.map Prod.snd).map some).Nodup := by
    rw [List.zipIdx_map_snd]
    exact List.Nodup.map (fun _ _ => Option.some.inj) List.nodup_range'
  rw [List.map_map] at hkeys
  apply distinct_concat_map part hkeys
  · intro e _
    exact hcheck e.1 e.2
  · intro e _
    exact hplace e.1 e.2

end Outcome

end Preflight

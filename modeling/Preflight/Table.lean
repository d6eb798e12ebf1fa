/-!
# Tables of named values

Bindings from names to values, kept in increasing order of the names with one
binding a name. Names are compared by code points, which is the byte order of
their UTF-8 form, so listing a table is deterministic. Because the order is part
of the type, two tables with the same bindings are equal (`Table.ext_find?`).
-/

set_option autoImplicit false

namespace Preflight

/-- Bindings of names to values, one a name, in increasing order of the names. -/
structure Table (α : Type) where
  entries : List (String × α)
  sorted : entries.Pairwise fun a b => a.1 < b.1
deriving Repr, DecidableEq

namespace Table

variable {α β : Type}

/-- Put a binding at its place in a list of bindings; an older binding of the name gives way. -/
def place (name : String) (value : α) : List (String × α) → List (String × α)
  | [] => [(name, value)]
  | (k, v) :: rest =>
    if name < k then (name, value) :: (k, v) :: rest
    else if name = k then (name, value) :: rest
    else (k, v) :: place name value rest

/-- A placed list holds the new binding and bindings that were there before. -/
theorem mem_place {name : String} {value : α} {l : List (String × α)} {e : String × α}
    (h : e ∈ place name value l) : e = (name, value) ∨ e ∈ l := by
  induction l with
  | nil => simpa [place] using h
  | cons head rest ih =>
    obtain ⟨k, v⟩ := head
    unfold place at h
    split at h
    · simpa using h
    · split at h
      · rcases List.mem_cons.1 h with rfl | h
        · exact .inl rfl
        · exact .inr (List.mem_cons_of_mem _ h)
      · rcases List.mem_cons.1 h with rfl | h
        · exact .inr (List.mem_cons_self ..)
        · exact (ih h).imp_right (List.mem_cons_of_mem _)

/-- Placing keeps the names increasing. -/
theorem place_sorted (name : String) (value : α) {l : List (String × α)}
    (h : l.Pairwise fun a b => a.1 < b.1) :
    (place name value l).Pairwise fun a b => a.1 < b.1 := by
  induction l with
  | nil => simp [place]
  | cons head rest ih =>
    obtain ⟨k, v⟩ := head
    obtain ⟨hk, hrest⟩ := List.pairwise_cons.1 h
    unfold place
    split
    · rename_i hlt
      refine List.pairwise_cons.2 ⟨fun e he => ?_, h⟩
      rcases List.mem_cons.1 he with rfl | he
      · exact hlt
      · exact String.lt_trans hlt (hk e he)
    · split
      · rename_i heq
        subst heq
        exact List.pairwise_cons.2 ⟨hk, hrest⟩
      · rename_i hlt hne
        refine List.pairwise_cons.2 ⟨fun e he => ?_, ih hrest⟩
        rcases mem_place he with rfl | he
        · exact Std.lt_of_le_of_ne (String.not_lt.1 hlt) (Ne.symm hne)
        · exact hk e he

/-- The table without bindings. -/
def empty : Table α :=
  ⟨[], .nil⟩

instance : EmptyCollection (Table α) := ⟨empty⟩

instance : Inhabited (Table α) := ⟨empty⟩

/-- The table with one more binding, which replaces an older one of the same name. -/
def insert (t : Table α) (name : String) (value : α) : Table α :=
  ⟨place name value t.entries, place_sorted name value t.sorted⟩

/-- The value bound to a name. -/
def find? (t : Table α) (name : String) : Option α :=
  (t.entries.find? (·.1 == name)).map Prod.snd

def contains (t : Table α) (name : String) : Bool :=
  (t.find? name).isSome

/-- The bound names in increasing order. -/
def keys (t : Table α) : List String :=
  t.entries.map Prod.fst

/-- The number of bindings. -/
def size (t : Table α) : Nat :=
  t.entries.length

/-- Insert bindings one after the other, so that of two for one name the later counts. -/
def insertAll (t : Table α) (bindings : List (String × α)) : Table α :=
  bindings.foldl (fun t b => t.insert b.1 b.2) t

/-- The table of a list of bindings; of two for one name the later counts. -/
def ofList (bindings : List (String × α)) : Table α :=
  empty.insertAll bindings

/-! ### Looking up after inserting -/

/-- A name that is smaller than every bound name is not found. -/
theorem lookup_eq_none_of_lt {name : String} {l : List (String × α)}
    (h : ∀ e ∈ l, name < e.1) : l.find? (·.1 == name) = none := by
  refine List.find?_eq_none.2 fun e he heq => ?_
  rw [beq_iff_eq] at heq
  exact String.lt_irrefl name (heq ▸ h e he)

/-- Looking a name up after placing a binding. -/
theorem lookup_place (name k : String) (value : α) (l : List (String × α)) :
    (place name value l).find? (·.1 == k) =
      if name = k then some (name, value) else l.find? (·.1 == k) := by
  induction l with
  | nil => by_cases h : name = k <;> simp [place, h]
  | cons head rest ih =>
    obtain ⟨k', v⟩ := head
    unfold place
    split
    · by_cases h : name = k <;> simp [List.find?_cons, h]
    · split
      · rename_i heq
        subst heq
        by_cases h : name = k <;> simp [h]
      · rename_i hne
        by_cases h : name = k
        · subst h
          simp [ih, Ne.symm hne]
        · simp [List.find?_cons, ih, h]

/-- Looking a name up after inserting a binding. -/
theorem find?_insert (t : Table α) (name k : String) (value : α) :
    (t.insert name value).find? k = if name = k then some value else t.find? k := by
  simp only [find?, insert, lookup_place]
  split <;> simp

/-- The empty table binds nothing. -/
@[simp] theorem find?_empty (name : String) : (empty : Table α).find? name = none := rfl

/-- Lists with increasing names that bind every name alike are equal. -/
theorem entries_ext {l m : List (String × α)} (hl : l.Pairwise fun a b => a.1 < b.1)
    (hm : m.Pairwise fun a b => a.1 < b.1)
    (h : ∀ k, (l.find? (·.1 == k)).map Prod.snd = (m.find? (·.1 == k)).map Prod.snd) : l = m := by
  induction l generalizing m with
  | nil =>
    cases m with
    | nil => rfl
    | cons e m => simpa using h e.1
  | cons d l ih =>
    obtain ⟨hd, hl⟩ := List.pairwise_cons.1 hl
    cases m with
    | nil => simpa using h d.1
    | cons e m =>
      obtain ⟨he, hm⟩ := List.pairwise_cons.1 hm
      have hname : d.1 = e.1 := by
        by_cases hlt : d.1 < e.1
        · have hfind := h d.1
          rw [lookup_eq_none_of_lt (l := e :: m) (by
            intro x hx
            rcases List.mem_cons.1 hx with rfl | hx
            · exact hlt
            · exact String.lt_trans hlt (he x hx))] at hfind
          simp at hfind
        · by_cases heq : d.1 = e.1
          · exact heq
          · have hgt : e.1 < d.1 := Std.lt_of_le_of_ne (String.not_lt.1 hlt) (Ne.symm heq)
            have hfind := h e.1
            rw [lookup_eq_none_of_lt (l := d :: l) (by
              intro x hx
              rcases List.mem_cons.1 hx with rfl | hx
              · exact hgt
              · exact String.lt_trans hgt (hd x hx))] at hfind
            simp at hfind
      have hvalue : d.2 = e.2 := by simpa [hname] using h d.1
      have hrest : l = m := by
        refine ih hl hm fun k => ?_
        have hk := h k
        by_cases hdk : d.1 = k
        · rw [lookup_eq_none_of_lt (fun x hx => hdk ▸ hd x hx),
            lookup_eq_none_of_lt (fun x hx => hdk ▸ hname ▸ he x hx)]
        · have hek : ¬ e.1 = k := hname ▸ hdk
          simpa [List.find?_cons, hdk, hek] using hk
      rw [Prod.ext hname hvalue, hrest]

/-- A table is determined by what it binds. -/
theorem ext_find? {t u : Table α} (h : ∀ k, t.find? k = u.find? k) : t = u := by
  have hentries : t.entries = u.entries := entries_ext t.sorted u.sorted h
  cases t
  cases u
  simpa using hentries

end Table

end Preflight

import Preflight.Table

/-!
# Bindings of a table

A table is seen through what it binds: its entries are the bindings that are found
(`mem_entries_iff`), and bindings for different names are found as they were put in
(`find?_insertAll`).
-/

set_option autoImplicit false

namespace Preflight.Table

variable {α β : Type}

/-- In a list that is sorted by name, the entries are what looking names up finds. -/
theorem mem_iff_lookup {l : List (String × α)} (hl : l.Pairwise fun a b => a.1 < b.1)
    (name : String) (value : α) :
    (name, value) ∈ l ↔ (l.find? (·.1 == name)).map Prod.snd = some value := by
  induction l with
  | nil => simp
  | cons e l ih =>
    obtain ⟨he, hl⟩ := List.pairwise_cons.1 hl
    by_cases hname : e.1 = name
    · have hnot : (name, value) ∉ l := by
        intro hmem
        have hlt : e.1 < name := he (name, value) hmem
        rw [hname] at hlt
        exact String.lt_irrefl name hlt
      rw [List.mem_cons, List.find?_cons_of_pos (by simpa using hname), Option.map_some,
        Option.some.injEq]
      constructor
      · rintro (h | h)
        · rw [← h]
        · exact absurd h hnot
      · intro h
        exact .inl (Prod.ext hname.symm h.symm)
    · rw [List.mem_cons, List.find?_cons_of_neg (by simpa using hname), ← ih hl]
      constructor
      · rintro (h | h)
        · exact absurd (congrArg Prod.fst h).symm hname
        · exact h
      · exact .inr

/-- The entries of a table are the bindings that are found. -/
theorem mem_entries_iff (t : Table α) (name : String) (value : α) :
    (name, value) ∈ t.entries ↔ t.find? name = some value :=
  mem_iff_lookup t.sorted name value

/-- The keys of a table are the names that are found. -/
theorem mem_keys_iff (t : Table α) (name : String) :
    name ∈ t.keys ↔ ∃ value, t.find? name = some value := by
  rw [keys, List.mem_map]
  constructor
  · rintro ⟨⟨_, value⟩, hmem, rfl⟩
    exact ⟨value, (t.mem_entries_iff _ value).1 hmem⟩
  · rintro ⟨value, hfind⟩
    exact ⟨(name, value), (t.mem_entries_iff name value).2 hfind, rfl⟩

/-- Binding a name again replaces its value where it stands. -/
theorem place_eq_map {name : String} {new : α} {l : List (String × α)}
    (hl : l.Pairwise fun a b => a.1 < b.1) {old : α} (h : (name, old) ∈ l) :
    place name new l = l.map fun e => if e.1 = name then (name, new) else e := by
  induction l with
  | nil => cases h
  | cons e l ih =>
    obtain ⟨k, v⟩ := e
    obtain ⟨he, hl⟩ := List.pairwise_cons.1 hl
    by_cases hk : k = name
    · subst hk
      have hrest : l.map (fun e => if e.1 = k then (k, new) else e) = l := by
        refine (List.map_congr_left ?_).trans (List.map_id l)
        intro e hmem
        have hlt : k < e.1 := he e hmem
        have hne : e.1 ≠ k := by
          intro heq
          rw [heq] at hlt
          exact String.lt_irrefl k hlt
        rw [if_neg hne, id]
      rw [place, if_neg (String.lt_irrefl k), if_pos rfl, List.map_cons, if_pos rfl, hrest]
    · have hmem : (name, old) ∈ l := by
        rcases List.mem_cons.1 h with heq | hmem
        · exact absurd (congrArg Prod.fst heq).symm hk
        · exact hmem
      have hlt : k < name := he (name, old) hmem
      have hnot : ¬ name < k := fun hgt => String.lt_irrefl k (String.lt_trans hlt hgt)
      rw [place, if_neg hnot, if_neg (Ne.symm hk), List.map_cons, if_neg hk, ih hl hmem]

/-- Inserting a name that is bound changes the value of its entry and nothing else. -/
theorem entries_insert_of_find? {t : Table α} {name : String} {old : α}
    (h : t.find? name = some old) (new : α) :
    (t.insert name new).entries = t.entries.map fun e => if e.1 = name then (name, new) else e :=
  place_eq_map t.sorted ((t.mem_entries_iff name old).2 h)

/-- The names of a table increase. -/
theorem keys_sorted (t : Table α) : t.keys.Pairwise (· < ·) := by
  unfold keys
  rw [List.pairwise_map]
  exact t.sorted

/-- A table has each name once. -/
theorem keys_nodup (t : Table α) : t.keys.Nodup := by
  refine t.keys_sorted.imp ?_
  rintro name _ h rfl
  exact String.lt_irrefl name h

/-- Inserting bindings adds their names and removes none. -/
theorem mem_keys_insertAll (t : Table α) (l : List (String × α)) (name : String) :
    name ∈ (t.insertAll l).keys ↔ name ∈ t.keys ∨ name ∈ l.map Prod.fst := by
  induction l generalizing t with
  | nil => simp [insertAll]
  | cons e l ih =>
    have hinsert : name ∈ (t.insert e.1 e.2).keys ↔ name = e.1 ∨ name ∈ t.keys := by
      rw [mem_keys_iff, mem_keys_iff]
      simp only [find?_insert]
      by_cases hname : e.1 = name
      · simp [hname]
      · simp [hname, Ne.symm hname]
    have hstep : t.insertAll (e :: l) = (t.insert e.1 e.2).insertAll l := rfl
    rw [hstep, ih, hinsert, List.map_cons, List.mem_cons]
    constructor
    · rintro ((h | h) | h)
      · exact .inr (.inl h)
      · exact .inl h
      · exact .inr (.inr h)
    · rintro (h | h | h)
      · exact .inl (.inr h)
      · exact .inl (.inl h)
      · exact .inr h

/-- The names of a table of bindings are those that have one. -/
theorem mem_keys_ofList (l : List (String × α)) (name : String) :
    name ∈ (ofList l).keys ↔ name ∈ l.map Prod.fst := by
  have hempty : name ∉ (empty : Table α).keys := List.not_mem_nil
  rw [ofList, mem_keys_insertAll]
  simp [hempty]

/-- Bindings for different names that are inserted one after the other are all found. -/
theorem find?_insertAll {l : List (String × α)} (hl : l.Pairwise fun a b => a.1 ≠ b.1)
    (t : Table α) (name : String) :
    (t.insertAll l).find? name =
      ((l.find? (·.1 == name)).map Prod.snd).or (t.find? name) := by
  induction l generalizing t with
  | nil => rfl
  | cons e l ih =>
    obtain ⟨he, hl⟩ := List.pairwise_cons.1 hl
    have hstep : t.insertAll (e :: l) = (t.insert e.1 e.2).insertAll l := rfl
    rw [hstep, ih hl, find?_insert]
    by_cases hname : e.1 = name
    · have hnone : l.find? (·.1 == name) = none := by
        rw [List.find?_eq_none]
        intro b hb heq
        exact he b hb (hname.trans (beq_iff_eq.1 heq).symm)
      rw [hnone, List.find?_cons_of_pos (by simpa using hname), if_pos hname]
      rfl
    · rw [List.find?_cons_of_neg (by simpa using hname), if_neg hname]

/-- The entries of a table, changed value by value and put into a new table, are found changed. -/
theorem find?_ofList_map (t : Table α) (f : α → β) (name : String) :
    (ofList (t.entries.map fun e => (e.1, f e.2))).find? name = (t.find? name).map f := by
  have hdistinct : (t.entries.map fun e => (e.1, f e.2)).Pairwise fun a b => a.1 ≠ b.1 := by
    rw [List.pairwise_map]
    refine t.sorted.imp ?_
    intro a b hlt heq
    have heq : a.1 = b.1 := heq
    rw [heq] at hlt
    exact String.lt_irrefl _ hlt
  rw [ofList, find?_insertAll hdistinct, find?_empty, Option.or_none, List.find?_map,
    Option.map_map, find?, Option.map_map]
  rfl

/-- A table is made up of its entries. -/
theorem ofList_entries (t : Table α) : ofList t.entries = t := by
  apply ext_find?
  intro name
  have hentries : t.entries.map (fun e => (e.1, id e.2)) = t.entries := List.map_id t.entries
  rw [← hentries, t.find?_ofList_map id name, Option.map_id, id]

/-- What a name is bound to in the end depends only on the bindings that a test for its name lets
through. -/
theorem find?_insertAll_filter (p : String → Bool) {name : String} (hp : p name = true)
    (l : List (String × α)) {t u : Table α} (h : t.find? name = u.find? name) :
    (t.insertAll (l.filter fun e => p e.1)).find? name = (u.insertAll l).find? name := by
  induction l generalizing t u with
  | nil => exact h
  | cons e l ih =>
    have hstep : u.insertAll (e :: l) = (u.insert e.1 e.2).insertAll l := rfl
    rw [hstep, List.filter_cons]
    by_cases he : p e.1 = true
    · rw [if_pos he]
      have hkept : (t.insert e.1 e.2).find? name = (u.insert e.1 e.2).find? name := by
        rw [find?_insert, find?_insert, h]
      exact ih hkept
    · rw [if_neg he]
      have hname : e.1 ≠ name := by
        rintro rfl
        exact he hp
      apply ih
      rw [find?_insert, if_neg hname, h]

/-- Bindings of other names may be left out. -/
theorem find?_ofList_filter (p : String → Bool) {name : String} (hp : p name = true)
    (l : List (String × α)) :
    (ofList (l.filter fun e => p e.1)).find? name = (ofList l).find? name :=
  find?_insertAll_filter p hp l rfl

end Preflight.Table

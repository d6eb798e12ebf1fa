import Preflight.Proofs.Toml.Values
import Preflight.Toml.Document

/-!
# Documents of TOML are read back

Each statement of a document is read up to the end of its last line, whatever follows it
(`IsStatement`), so that a document is read by taking the steps for its statements one after
the other (`readStatements_flatMap`). While tables are written one after the other, the
statements only ever add at the end of the table that is open. What surrounds the open table
is a context around its entries (`Focus`), and a table under its own header fills the place
that its header opens (`foldlM_step?_table`).
-/

set_option autoImplicit false

namespace Preflight.Toml

/-! ### Statements -/

/-- A text that is read as a statement, whatever follows it. -/
def IsStatement (text : List Char) (statement : Statement) : Prop :=
  text ≠ [] ∧ ∀ rest, statement? (text ++ rest) = some (statement, rest)

/-- A text that is read as a value if the line ends with it. -/
structure IsValue (text : List Char) (v : Value) : Prop where
  starts : ∃ c tail, text = c :: tail ∧ isBlank c = false
  read : ∀ fuel rest, text.length + 3 ≤ fuel →
    value? fuel maxDepth (text ++ '\n' :: rest) = some (v, '\n' :: rest)

/-- A line goes on with a character that is no blank, begins no comment and ends no line. -/
theorem endLine?_cons {c : Char} (hblank : isBlank c = false) (hhash : c ≠ '#') (hfeed : c ≠ '\n')
    (hreturn : c ≠ '\r') (s : List Char) : endLine? (c :: s) = none := by
  rw [endLine?, skipBlanks_cons hblank]
  split
  · next heq => exact absurd (List.cons.inj heq).1 hhash
  · rw [newline?.eq_def]
    split <;> grind

/-- A line feed ends a line. -/
@[simp] theorem endLine?_feed (rest : List Char) : endLine? ('\n' :: rest) = some rest := rfl

/-- An empty line is a statement that says nothing. -/
theorem isStatement_blank : IsStatement ['\n'] .blank :=
  ⟨by decide, fun rest => by simp [statement?, endLine?_feed]⟩

/-- The header of a table is read back. -/
theorem isStatement_table {path : List String} (hpath : path.length < maxParts) (name : String) :
    IsStatement ('[' :: writeKey (path ++ [name]) ++ [']', '\n']) (.table ⟨path, name⟩) := by
  refine ⟨List.cons_ne_nil _ _, fun rest => ?_⟩
  have hkey : key? (writeKey (path ++ [name]) ++ ']' :: '\n' :: rest) =
      some (⟨path, name⟩, ']' :: '\n' :: rest) := by
    refine keyUpTo?_writeKey path name hpath ?_ ?_
    · intro c hc
      cases hc
      rfl
    · intro tail heq
      cases heq
  obtain ⟨c, tail, hcons, hc⟩ := exists_writeKey_eq_cons path name
  have hbracket : c ≠ '[' := hc.ne rfl (by decide) (by decide)
  have htext : ('[' :: writeKey (path ++ [name]) ++ [']', '\n']) ++ rest =
      '[' :: (writeKey (path ++ [name]) ++ ']' :: '\n' :: rest) := by simp
  rw [htext, statement?, endLine?_cons rfl (by decide) (by decide) (by decide),
    skipBlanks_cons rfl]
  dsimp only
  split
  · next heq =>
    rw [hcons] at heq
    simp only [List.cons_append, List.cons.injEq, true_and] at heq
    exact absurd heq.1 hbracket
  · next heq =>
    cases heq
    rw [hkey]
    rfl
  · next hother => exact absurd rfl (hother _)

/-- A binding of a name is read back, if its value is. -/
theorem isStatement_binding (name : String) {text : List Char} {v : Value} (h : IsValue text v) :
    IsStatement (writeName name ++ [' ', '=', ' '] ++ text ++ ['\n']) (.binding ⟨[], name⟩ v) := by
  obtain ⟨c, tail, hcons, hc⟩ := exists_writeName_eq_cons name
  refine ⟨by simp [hcons], fun rest => ?_⟩
  have hkey : key? (writeName name ++ ' ' :: '=' :: ' ' :: (text ++ '\n' :: rest)) =
      some (⟨[], name⟩, '=' :: ' ' :: (text ++ '\n' :: rest)) := by
    have hwrite : writeName name = writeKey ([] ++ [name]) := by simp [writeKey]
    rw [hwrite]
    refine keyUpTo?_writeKey [] name (by decide) ?_ ?_
    · intro c hc
      cases hc
      rfl
    · intro tail heq
      cases heq
  have htext : (writeName name ++ [' ', '=', ' '] ++ text ++ ['\n']) ++ rest =
      writeName name ++ ' ' :: '=' :: ' ' :: (text ++ '\n' :: rest) := by simp
  obtain ⟨first, after, hfirst, hblank⟩ := h.starts
  have hvalue : skipBlanks (' ' :: (text ++ '\n' :: rest)) = text ++ '\n' :: rest := by
    rw [hfirst, List.cons_append, skipBlanks, List.dropWhile_cons_of_pos rfl]
    exact skipBlanks_cons hblank _
  rw [hcons, List.cons_append] at hkey
  have hend : ∀ tail, endLine? (c :: tail) = none :=
    endLine?_cons hc.isBlank_eq_false (hc.ne rfl (by decide) (by decide))
      (hc.ne rfl (by decide) (by decide)) (hc.ne rfl (by decide) (by decide))
  have hbracket : c ≠ '[' := hc.ne rfl (by decide) (by decide)
  rw [htext, hcons, List.cons_append, statement?, hend, skipBlanks_cons hc.isBlank_eq_false]
  dsimp only
  split
  · next heq => exact absurd (List.cons.inj heq).1 hbracket
  · next heq => exact absurd (List.cons.inj heq).1 hbracket
  · simp only [hkey, hvalue]
    rw [h.read _ _ (by simp only [List.length_cons, List.length_append]; omega)]
    rfl

/-! ### Documents -/

/-- A text that is made of statements is read by taking the steps for them one after the other. -/
theorem readStatements_flatMap {parts : List (List Char × Statement)}
    (hparts : ∀ p ∈ parts, IsStatement p.1 p.2) {fuel : Nat} (hfuel : parts.length ≤ fuel)
    {scan final : Scan} (hrun : (parts.map Prod.snd).foldlM Scan.step? scan = some final) :
    readStatements fuel scan (parts.flatMap Prod.fst) = .ok final := by
  induction parts generalizing fuel scan with
  | nil =>
    cases hrun
    rw [List.flatMap_nil, readStatements.eq_def]
  | cons p parts ih =>
    obtain ⟨fuel, rfl⟩ := Nat.exists_eq_succ_of_ne_zero (Nat.ne_zero_of_lt hfuel)
    obtain ⟨⟨hne, hread⟩, hparts⟩ := List.forall_mem_cons.1 hparts
    obtain ⟨next, hstep, hrun⟩ := Option.bind_eq_some_iff.1 hrun
    obtain ⟨c, tail, hcons⟩ := List.exists_cons_of_ne_nil hne
    have hstatement := hread (parts.flatMap Prod.fst)
    rw [hcons, List.cons_append] at hstatement
    rw [List.flatMap_cons, hcons, List.cons_append, readStatements.eq_def]
    simp only [hstatement, hstep]
    exact ih hparts (Nat.le_of_succ_le_succ hfuel) hrun

/-- A document that is made of statements has the entries to which the steps for them lead. -/
theorem readDocument_of_parts {parts : List (List Char × Statement)}
    (hparts : ∀ p ∈ parts, IsStatement p.1 p.2) {text : String}
    (htext : text.toList = parts.flatMap Prod.fst)
    (hmark : Text.dropMark text.toList = text.toList) {final : Scan}
    (hrun : (parts.map Prod.snd).foldlM Scan.step? .start = some final) :
    readDocument text = .ok (Draft.toEntries final.root) := by
  have hlength : parts.length ≤ (parts.flatMap Prod.fst).length :=
    length_le_length_flatMap fun p hp => (hparts p hp).1
  rw [readDocument, hmark, htext]
  simp only [readStatements_flatMap hparts (Nat.le_succ_of_le hlength) hrun]
  rfl

/-! ### Tables in a document -/

section Entries

variable {α : Type} {name : String} {entries : List (String × α)}

/-- A name that no entry has is not found. -/
theorem find?_eq_none (h : name ∉ entries.map Prod.fst) : find? name entries = none := by
  have hnone : entries.find? (·.1 == name) = none := by
    refine List.find?_eq_none.2 fun e he heq => h ?_
    exact List.mem_map.2 ⟨e, he, beq_iff_eq.1 heq⟩
  rw [find?, hnone, Option.map_none]

/-- A name that is new in the last entry is found there. -/
theorem find?_append_last (h : name ∉ entries.map Prod.fst) (value : α) :
    find? name (entries ++ [(name, value)]) = some value := by
  have hnone := find?_eq_none h
  rw [find?, Option.map_eq_none_iff] at hnone
  rw [find?, List.find?_append, hnone]
  simp

/-- A name that is new in the last entry is replaced there. -/
theorem replace_append_last (h : name ∉ entries.map Prod.fst) (old new : α) :
    replace name new (entries ++ [(name, old)]) = entries ++ [(name, new)] := by
  have hself : entries.map (fun e => if e.1 = name then (name, new) else e) = entries := by
    refine (List.map_congr_left fun e he => if_neg ?_).trans (List.map_id entries)
    exact fun heq => h (List.mem_map.2 ⟨e, he, heq⟩)
  rw [replace, List.map_append, hself, List.map_singleton, if_pos rfl]

end Entries

namespace Draft

/-- The surroundings of the entries of a table that headers have opened: a change of these entries, to
which the path leads, is a change of the root. -/
def Focus (path : List String) (place : Entries → Entries) : Prop :=
  ∀ change es es', change .header es = some (.header, es') →
    within false change path .header (place es) = some (.header, place es')

/-- The root is at the empty path. -/
theorem focus_root : Focus [] id := fun _ _ _ h => h

/-- A change at a path in two parts is one within the other. -/
theorem within_append (byKey : Bool) (change : Change) (path rest : List String) :
    within byKey change (path ++ rest) = within byKey (within byKey change rest) path := by
  induction path with
  | nil => rfl
  | cons name path ih =>
    funext origin entries
    rw [List.cons_append, within, within, ih]

/-- The table that a header opens in a table is surrounded by what surrounds this table and by the entries
before. -/
theorem Focus.open {path : List String} {place : Entries → Entries} (h : Focus path place)
    {name : String} {es : Entries} (hname : name ∉ es.map Prod.fst) :
    Focus (path ++ [name]) fun inner => place (es ++ [(name, .table .header inner)]) := by
  intro change inner inner' hchange
  rw [within_append]
  apply h
  rw [within, find?_append_last hname]
  simp only [Bool.false_eq_true, false_and, if_false, within, hchange, Option.map_some,
    replace_append_last hname]

/-- Entries are read off one after the other. -/
theorem toEntries_append (es es' : Entries) :
    toEntries (es ++ es') = toEntries es ++ toEntries es' := by
  induction es with
  | nil => rfl
  | cons e es ih => rw [List.cons_append, toEntries, ih]; rfl

/-- Entries with values alone are read off as they are. -/
theorem toEntries_map_value (entries : List (String × Value)) :
    toEntries (entries.map fun b => (b.1, .value b.2)) = entries := by
  induction entries with
  | nil => rfl
  | cons b entries ih => rw [List.map_cons, toEntries, ih]; rfl

end Draft

open Draft (Focus Entries)

/-- A change at a place is made in the entries of the place. -/
theorem change_of_focus {path : List String} {place : Entries → Entries} (h : Focus path place)
    (current : List String) {change : Draft.Change} {es es' : Entries}
    (hchange : change .header es = some (.header, es')) (next : List String) :
    Scan.change ⟨place es, current⟩ path change next = some ⟨place es', next⟩ := by
  rw [Scan.change, h _ _ _ hchange]
  rfl

/-- Bindings of new names are added to the entries of the table that is open. -/
theorem foldlM_step?_bindings {path : List String} {place : Entries → Entries}
    (h : Focus path place) (bindings : List (String × Value)) {es : Entries}
    (hnew : ∀ b ∈ bindings, b.1 ∉ es.map Prod.fst) (hdistinct : (bindings.map Prod.fst).Nodup) :
    (bindings.map fun b => Statement.binding ⟨[], b.1⟩ b.2).foldlM Scan.step? ⟨place es, path⟩ =
      some ⟨place (es ++ bindings.map fun b => (b.1, .value b.2)), path⟩ := by
  induction bindings generalizing es with
  | nil => simp
  | cons b bindings ih =>
    obtain ⟨hb, hnew⟩ := List.forall_mem_cons.1 hnew
    rw [List.map_cons, List.nodup_cons] at hdistinct
    have hbind : Draft.bind false b.1 b.2 .header es = some (.header, es ++ [(b.1, .value b.2)]) := by
      simp [Draft.bind, find?_eq_none hb]
    have hstep : Scan.step? ⟨place es, path⟩ (.binding ⟨[], b.1⟩ b.2) =
        some ⟨place (es ++ [(b.1, .value b.2)]), path⟩ := change_of_focus h path hbind path
    have hafter : ∀ d ∈ bindings, d.1 ∉ (es ++ [(b.1, Draft.value b.2)]).map Prod.fst := by
      intro d hd hmem
      rw [List.map_append, List.mem_append, List.map_singleton, List.mem_singleton] at hmem
      rcases hmem with hmem | heq
      · exact hnew d hd hmem
      · exact hdistinct.1 (heq ▸ List.mem_map_of_mem hd)
    rw [List.map_cons, List.foldlM_cons, hstep, Option.bind_eq_bind, Option.bind_some,
      ih hafter hdistinct.2, List.map_cons, List.append_assoc, List.singleton_append]

/-- A table under a header of its own is added to the entries of the table in which it is. -/
theorem foldlM_step?_table {path : List String} {place : Entries → Entries} (h : Focus path place)
    {name : String} {es : Entries} (hname : name ∉ es.map Prod.fst) (current : List String)
    {bindings : List (String × Value)} (hdistinct : (bindings.map Prod.fst).Nodup) :
    (Statement.table ⟨path, name⟩ :: bindings.map fun b => .binding ⟨[], b.1⟩ b.2).foldlM
        Scan.step? ⟨place es, current⟩ =
      some ⟨place (es ++ [(name, .table .header (bindings.map fun b => (b.1, .value b.2)))]),
        path ++ [name]⟩ := by
  have hopen : Draft.openTable name .header es =
      some (.header, es ++ [(name, .table .header [])]) := by
    simp [Draft.openTable, find?_eq_none hname]
  have hstep : Scan.step? ⟨place es, current⟩ (.table ⟨path, name⟩) =
      some ⟨place (es ++ [(name, .table .header [])]), path ++ [name]⟩ :=
    change_of_focus h current hopen (path ++ [name])
  have hnew : ∀ b ∈ bindings, b.1 ∉ ([] : Entries).map Prod.fst := fun _ _ => List.not_mem_nil
  rw [List.foldlM_cons, hstep, Option.bind_eq_bind, Option.bind_some]
  exact foldlM_step?_bindings (h.open hname) bindings hnew hdistinct

end Preflight.Toml

import Mathlib.Data.List.TakeWhile
import Preflight.Proofs.Bindings
import Preflight.Proofs.Path.Resolving

/-!
# Texts in pieces

A text is put together from literal pieces and from placeholders in any of the three
spellings. Expanding it replaces every placeholder by the value of its variable and
leaves the rest as it is, however the pieces follow each other, as long as no bare name
goes on with what comes after it (`expandVariables_pieces`).

The value of a variable is that of the name as it is written or, if there is no such
name, of the first of those that differ only in case (`lookup_eq_some_iff`).
-/

set_option autoImplicit false

namespace Preflight

open Preflight.Text

/-! ### Names -/

namespace Text

/-- A letter or an underscore, then letters, digits and underscores. -/
def IsIdentifier : List Char → Prop
  | [] => False
  | c :: rest => isIdentifierStart c = true ∧ ∀ d ∈ rest, isIdentifierPart d = true

instance (name : List Char) : Decidable (IsIdentifier name) :=
  match name with
  | [] => inferInstanceAs (Decidable False)
  | c :: rest =>
    decidable_of_decidable_of_iff
      (p := isIdentifierStart c = true ∧ rest.all isIdentifierPart = true)
      (by rw [List.all_eq_true, IsIdentifier])

/-- An identifier is read to its end. -/
theorem IsIdentifier.identifier?_eq {name : List Char} (h : IsIdentifier name) :
    identifier? name = some (name, []) := by
  cases name with
  | nil => cases h
  | cons c rest =>
    obtain ⟨hstart, hrest⟩ := h
    rw [identifier?, if_pos hstart, List.takeWhile_eq_self_iff.2 hrest,
      List.dropWhile_eq_nil_iff.2 hrest]

end Text

/-- The value of a name in a table: that of the name itself or, if the table does not have it, that
of the first name that differs from it only in the case of ASCII letters. -/
inductive Table.IsValue (vars : Table String) (name : String) : String → Prop
  | exact {value : String} (mem : (name, value) ∈ vars.entries) : IsValue vars name value
  | respelled {name' value : String} (missing : name ∉ vars.keys)
      (mem : (name', value) ∈ vars.entries)
      (same : lowerAscii name'.toList = lowerAscii name.toList)
      (first : ∀ e ∈ vars.entries, lowerAscii e.1.toList = lowerAscii name.toList → name' ≤ e.1) :
      IsValue vars name value

/-- The first entry that satisfies a property of keys is the one with the least key that does. -/
theorem Table.find?_entries_eq_some {α : Type} {t : Table α} {p : String → Bool}
    {e : String × α} (h : t.entries.find? (p ·.1) = some e) :
    e ∈ t.entries ∧ p e.1 = true ∧ ∀ e' ∈ t.entries, p e'.1 = true → e.1 ≤ e'.1 := by
  obtain ⟨hp, before, after, heq, hbefore⟩ := List.find?_eq_some_iff_append.1 h
  refine ⟨List.mem_of_find?_eq_some h, hp, ?_⟩
  intro e' hmem hp'
  have hsorted := t.sorted
  rw [heq] at hsorted hmem
  rcases List.mem_append.1 hmem with hmem | hmem
  · have hnot := hbefore e' hmem
    simp [hp'] at hnot
  · rcases List.mem_cons.1 hmem with rfl | hmem
    · exact Std.le_refl _
    · have hlt := (List.pairwise_cons.1 (List.pairwise_append.1 hsorted).2.1).1 e' hmem
      exact Std.le_of_lt hlt

/-- The first entry with a property has the least name of all that have it. -/
theorem Table.find?_entries_eq_some_iff {α : Type} (t : Table α) (p : String → Bool)
    (e : String × α) :
    t.entries.find? (p ·.1) = some e ↔
      e ∈ t.entries ∧ p e.1 = true ∧ ∀ e' ∈ t.entries, p e'.1 = true → e.1 ≤ e'.1 := by
  refine ⟨find?_entries_eq_some, ?_⟩
  rintro ⟨hmem, hp, hleast⟩
  have hsome : (t.entries.find? (p ·.1)).isSome = true :=
    List.find?_isSome.2 ⟨e, hmem, hp⟩
  obtain ⟨e', hfind⟩ := Option.isSome_iff_exists.1 hsome
  obtain ⟨hmem', hp', hleast'⟩ := find?_entries_eq_some hfind
  have hname : e'.1 = e.1 := Std.le_antisymm (hleast' e hmem hp) (hleast e' hmem' hp')
  have hvalue := (t.mem_entries_iff e.1 e.2).1 hmem
  have hvalue' := (t.mem_entries_iff e'.1 e'.2).1 hmem'
  rw [hname, hvalue] at hvalue'
  rw [hfind, Prod.ext hname (Option.some.inj hvalue').symm]

namespace Resolver

/-- A variable is looked up as the value that its name has, exactly or else ignoring case. -/
theorem lookup_eq_some_iff (r : Resolver) (name value : String) :
    r.lookup name = some value ↔ r.vars.IsValue name value := by
  have hfirst (name' : String) :
      (r.vars.entries.find? fun e => equalsIgnoringCase e.1.toList name.toList) =
          some (name', value) ↔
        (name', value) ∈ r.vars.entries ∧ lowerAscii name'.toList = lowerAscii name.toList ∧
          ∀ e ∈ r.vars.entries, lowerAscii e.1.toList = lowerAscii name.toList → name' ≤ e.1 := by
    have hiff := r.vars.find?_entries_eq_some_iff
      (fun other => equalsIgnoringCase other.toList name.toList) (name', value)
    simpa only [equalsIgnoringCase, beq_iff_eq] using hiff
  unfold lookup
  cases hexact : r.vars.find? name with
  | some other =>
    have hmem := (r.vars.mem_entries_iff name other).2 hexact
    constructor
    · intro h
      cases h
      exact .exact hmem
    · intro h
      cases h with
      | exact mem => rw [← hexact, (r.vars.mem_entries_iff name value).1 mem]
      | respelled missing => exact absurd ((r.vars.mem_keys_iff name).2 ⟨other, hexact⟩) missing
  | none =>
    have hmissing : name ∉ r.vars.keys := by
      intro hmem
      obtain ⟨other, hother⟩ := (r.vars.mem_keys_iff name).1 hmem
      rw [hexact] at hother
      cases hother
    rw [Option.map_eq_some_iff]
    constructor
    · rintro ⟨⟨name', _⟩, hfind, rfl⟩
      obtain ⟨mem, same, first⟩ := (hfirst name').1 hfind
      exact .respelled hmissing mem same first
    · intro h
      cases h with
      | exact mem =>
        rw [(r.vars.mem_entries_iff name value).1 mem] at hexact
        cases hexact
      | respelled _ mem same first => exact ⟨_, (hfirst _).2 ⟨mem, same, first⟩, rfl⟩

end Resolver

/-! ### Pieces -/

/-- A piece of a text: literal characters, or a placeholder. -/
inductive Piece where
  | literal (text : List Char)
  | placeholder (p : Placeholder)

namespace Piece

def text : Piece → List Char
  | .literal s => s
  | .placeholder p => p.text

/-- Literal pieces hold nothing that starts a placeholder, names are identifiers, and no bare name
goes on with what is written after it. -/
def AreApart : List Piece → Prop
  | [] => True
  | .literal s :: pieces => '$' ∉ s ∧ '%' ∉ s ∧ AreApart pieces
  | .placeholder p :: pieces =>
    IsIdentifier p.name ∧ (p.spelling = .bare → Stops isIdentifierPart (pieces.flatMap text)) ∧
      AreApart pieces

instance decidableAreApart : (pieces : List Piece) → Decidable (AreApart pieces)
  | [] => inferInstanceAs (Decidable True)
  | .literal s :: pieces =>
    have := decidableAreApart pieces
    inferInstanceAs (Decidable ('$' ∉ s ∧ '%' ∉ s ∧ AreApart pieces))
  | .placeholder p :: pieces =>
    have := decidableAreApart pieces
    inferInstanceAs (Decidable (IsIdentifier p.name ∧
      (p.spelling = .bare → Stops isIdentifierPart (pieces.flatMap text)) ∧ AreApart pieces))

/-- What a piece becomes: a literal stays, and so does a placeholder without a value. -/
def expanded (lookup : List Char → Option (List Char)) : Piece → List Char
  | .literal s => s
  | .placeholder p => (lookup p.name).getD p.text

/-- Pieces that are apart are expanded one by one. -/
theorem expand_flatMap_text (lookup : List Char → Option (List Char)) {pieces : List Piece}
    (h : AreApart pieces) :
    Placeholder.expand lookup (pieces.flatMap text) = pieces.flatMap (expanded lookup) := by
  induction pieces with
  | nil => rw [List.flatMap_nil, List.flatMap_nil, Placeholder.expand]
  | cons piece pieces ih =>
    rw [List.flatMap_cons, List.flatMap_cons]
    cases piece with
    | literal s =>
      obtain ⟨hdollar, hpercent, hpieces⟩ := h
      rw [← ih hpieces]
      exact Placeholder.expand_literal_append lookup hdollar hpercent _
    | placeholder p =>
      obtain ⟨hname, hbare, hpieces⟩ := h
      rw [← ih hpieces]
      exact Placeholder.expand_text_append lookup hname.identifier?_eq hbare

end Piece

namespace Resolver

/-- The value of a variable by the characters of its name. -/
def value? (r : Resolver) (name : List Char) : Option (List Char) :=
  (r.lookup (String.ofList name)).map String.toList

/-- The value of a name is the one that the variables give it. -/
theorem value?_eq_some_iff (r : Resolver) (name value : String) :
    r.value? name.toList = some value.toList ↔ r.vars.IsValue name value := by
  rw [← lookup_eq_some_iff, value?, String.ofList_toList]
  constructor
  · intro h
    obtain ⟨other, hother, heq⟩ := Option.map_eq_some_iff.1 h
    rw [hother, String.toList_inj.1 heq]
  · intro h
    rw [h, Option.map_some]

/-- **Expansion of a text in pieces.** What is literal stays, values are inserted as they are, and a
placeholder without a value stays as it is written. All spellings of a name have the same value. -/
theorem expandVariables_pieces (r : Resolver) {pieces : List Piece} (h : Piece.AreApart pieces) :
    r.expandVariables (String.ofList (pieces.flatMap Piece.text)) =
      String.ofList (pieces.flatMap (Piece.expanded r.value?)) ∧
    (∀ name value, r.value? name.toList = some value.toList ↔ r.vars.IsValue name value) ∧
    ∀ name value, IsIdentifier name.toList → r.vars.IsValue name value → ∀ spelling,
      r.expandVariables (String.ofList (Placeholder.text ⟨spelling, name.toList⟩)) = value := by
  refine ⟨?_, r.value?_eq_some_iff, ?_⟩
  · unfold expandVariables
    rw [String.toList_ofList]
    exact congrArg String.ofList (Piece.expand_flatMap_text r.value? h)
  · intro name value hname hvalue spelling
    rw [expandVariables_placeholder hname.identifier?_eq, String.ofList_toList,
      (r.lookup_eq_some_iff name value).2 hvalue, Option.getD_some]

/-- Placeholders may follow each other, stand in values and be unknown; of names that differ only in
case the first counts. -/
theorem expandVariables_pieces_of_neighbours :
    let r : Resolver := ⟨⟨"/w"⟩, none, .ofList [("A", "$B%a%"), ("aB", "1"), ("AB", "2")]⟩
    let pieces : List Piece := [.literal ['x'], .placeholder ⟨.percent, ['A']⟩,
      .placeholder ⟨.percent, ['a', 'b']⟩, .placeholder ⟨.bare, ['N']⟩,
      .placeholder ⟨.braced, ['a', 'B']⟩, .literal ['A', '/'], .placeholder ⟨.bare, ['a']⟩]
    Piece.AreApart pieces ∧
      String.ofList (pieces.flatMap Piece.text) = "x%A%%ab%$N$\x7baB\x7dA/$a" ∧
      r.expandVariables (String.ofList (pieces.flatMap Piece.text)) =
        String.ofList (pieces.flatMap (Piece.expanded r.value?)) ∧
      String.ofList (pieces.flatMap (Piece.expanded r.value?)) = "x$B%a%2$N1A/$B%a%" := by
  intro r pieces
  have hapart : Piece.AreApart pieces := by decide +kernel
  exact ⟨hapart, by decide +kernel, (expandVariables_pieces r hapart).1, by decide +kernel⟩

end Resolver

end Preflight

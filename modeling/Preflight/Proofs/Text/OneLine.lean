import Preflight.Proofs.Text.Digits
import Preflight.Proofs.Text.Joined
import Preflight.Proofs.Text.LineFeeds
import Preflight.Proofs.Text.Spacing

/-!
# Texts that stay on one line

A text stays on one line if it has no line feed. Texts that are written with a line feed
after each (`unlines`) are the lines of what is written exactly if each of them stays on
one line (`lines_unlines_iff`); one that does not is read as several lines, which nothing
tells from lines that were meant. Numbers stay on one line, and so does any text that is
cut to a width (`isOneLine_compactLine`).
-/

set_option autoImplicit false

namespace Preflight.Text

/-- A text without a line feed. -/
def IsOneLine (text : String) : Prop :=
  '\n' ∉ text.toList

instance (text : String) : Decidable (IsOneLine text) :=
  inferInstanceAs (Decidable ('\n' ∉ text.toList))

/-- Two texts are one line together exactly if each of them is. -/
@[simp] theorem isOneLine_append (a b : String) :
    IsOneLine (a ++ b) ↔ IsOneLine a ∧ IsOneLine b := by
  simp only [IsOneLine, String.toList_append, List.mem_append, not_or]

/-- A text is one line exactly if none of its characters is a line feed. -/
theorem isOneLine_ofList (s : List Char) : IsOneLine (String.ofList s) ↔ '\n' ∉ s := by
  rw [IsOneLine, String.toList_ofList]

/-- A character other than a line feed is one line, however often it is repeated. -/
theorem isOneLine_replicate {c : Char} (h : c ≠ '\n') (n : Nat) :
    IsOneLine (String.ofList (List.replicate n c)) := by
  rw [isOneLine_ofList]
  exact fun hmem => h (List.eq_of_mem_replicate hmem).symm

/-- A text in a message is one line exactly if it is. -/
@[simp] theorem isOneLine_toString (text : String) : IsOneLine (toString text) ↔ IsOneLine text :=
  Iff.rfl

/-- A number is written in one line. -/
@[simp] theorem isOneLine_repr (n : Nat) : IsOneLine n.repr := by
  intro hmem
  rw [Nat.repr, String.toList_ofList] at hmem
  exact absurd (isAsciiDigit_of_mem_toDigits hmem) (by decide)

/-- Texts that are joined are one line exactly if each of them is. -/
theorem isOneLine_intercalate_iff {separator : String} (hseparator : IsOneLine separator)
    (ls : List String) : IsOneLine (separator.intercalate ls) ↔ ∀ l ∈ ls, IsOneLine l := by
  rw [IsOneLine, String.toList_intercalate, not_mem_intercalate_iff hseparator,
    List.forall_mem_map]
  rfl

/-- A text that is cut to a width has no line feed. -/
theorem isOneLine_compactLine (text : String) (limit : Nat) :
    IsOneLine (compactLine text limit) := by
  rw [compactLine, isOneLine_ofList]
  intro hmem
  -- every blank of such a text is a space
  have hspace := (isSpaced_compact limit text.toList).eq_space '\n' hmem (by decide)
  exact absurd hspace (by decide)

/-- A preview of names is one line, whatever the names are. -/
theorem isOneLine_previewList (names : List String) (most limit : Nat) :
    IsOneLine (previewList names most limit) := by
  have hshown : IsOneLine (", ".intercalate ((names.take most).map (compactLine · limit))) :=
    (isOneLine_intercalate_iff (by decide) _).2
      (List.forall_mem_map.2 fun name _ => isOneLine_compactLine name limit)
  unfold previewList
  split
  · exact hshown
  · simp +decide only [isOneLine_append, and_true]
    exact ⟨hshown, isOneLine_repr _⟩

/-! ### Texts with a line feed after each -/

/-- Texts one after the other, with a line feed after each. -/
def unlines (ls : List String) : String :=
  String.join (ls.map (· ++ "\n"))

/-- The characters of lines are those of each line and a line feed. -/
theorem toList_unlines (ls : List String) :
    (unlines ls).toList = (ls.map String.toList).flatMap fun line => line ++ ['\n'] := by
  rw [unlines, String.toList_join, List.flatMap_map, List.flatMap_map]
  simp only [String.toList_append]
  rfl

/-- No lines are the empty text. -/
@[simp] theorem unlines_nil : unlines [] = "" := rfl

/-- A first line is followed by a line feed and the others. -/
@[simp] theorem unlines_cons (l : String) (ls : List String) :
    unlines (l :: ls) = l ++ "\n" ++ unlines ls := by
  rw [unlines, List.map_cons, String.join_cons, unlines]

/-- More lines follow after those that there are. -/
@[simp] theorem unlines_append (ls more : List String) :
    unlines (ls ++ more) = unlines ls ++ unlines more := by
  rw [unlines, List.map_append, String.join_append, unlines, unlines]

/-- Texts that are each written row by row are so one after the other. -/
theorem join_eq_unlines {α : Type} {text : α → String} {rows : α → List String}
    (h : ∀ a, text a = unlines (rows a)) (l : List α) :
    String.join (l.map text) = unlines (l.flatMap rows) := by
  induction l with
  | nil => rfl
  | cons a l ih =>
    rw [List.map_cons, String.join_cons, ih, h, List.flatMap_cons, unlines_append]

/-- Texts that are written with a line feed after each are the lines of what is written exactly if
each of them stays on one line. -/
theorem lines_unlines_iff (ls : List String) :
    lines (unlines ls).toList = ls.map (fun l => (l ++ "\n").toList) ↔ ∀ l ∈ ls, IsOneLine l := by
  have hrows : ls.map (fun l => (l ++ "\n").toList) =
      (ls.map String.toList).map fun line => line ++ ['\n'] := by
    simp only [List.map_map, Function.comp_def, String.toList_append]
    rfl
  rw [toList_unlines, hrows]
  constructor
  · intro h l hl
    have hmem : l.toList ++ ['\n'] ∈ (ls.map String.toList).map fun line => line ++ ['\n'] :=
      List.mem_map_of_mem (List.mem_map_of_mem hl)
    rw [← h] at hmem
    obtain ⟨content, hcontent, heq | heq⟩ := exists_content_of_mem_lines hmem
    · rw [← heq, List.mem_append, not_or] at hcontent
      exact absurd (List.mem_singleton_self '\n') hcontent.2
    · rwa [← List.append_cancel_right heq] at hcontent
  · intro h
    exact lines_flatMap_feed _ (List.forall_mem_map.2 h)

end Preflight.Text

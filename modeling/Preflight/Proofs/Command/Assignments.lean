import Preflight.Proofs.Command.Quoting

/-!
# Assignments before a command

An assignment that is written without quotes, with a space after it, makes no difference to
what a command runs (`ofCommand_bareAssignment`). Both passes read its characters as they
stand and are back at their start after the space, so its word comes first and the words of
the command follow, or there are no words if the command has none (`words?_inert_append`).
Nothing is said of the command itself: it may hold quotes, escapes, a comment or more
assignments.
-/

set_option autoImplicit false

namespace Preflight.Command

open Preflight.Text

/-! ### Words without quotes and backslashes -/

/-- A character that both passes read as itself: it ends no word, opens no quote, begins no comment and
escapes nothing. -/
def isInert (c : Char) : Bool :=
  isPlain c && c != '\\'

/-- A character is inert if it is neither a separator nor a quote nor the start of a comment or of an
escape. -/
theorem isInert_iff {c : Char} :
    isInert c ↔ isSeparator c = false ∧ isQuote c = false ∧ c ≠ '#' ∧ c ≠ '\\' := by
  simp [isInert, isPlain, and_assoc]

/-- The characters of a class are inert if the seven that are not do not belong to it. -/
theorem isInert_of_class {p : Char → Bool}
    (hp : [' ', '\t', '\n', '"', '\'', '#', '\\'].all (!p ·)) {c : Char} (hc : p c) : isInert c := by
  have hne : ∀ d ∈ [' ', '\t', '\n', '"', '\'', '#', '\\'], c ≠ d := by
    rintro d hd rfl
    have hnot : (!p c) = true := List.all_eq_true.1 hp c hd
    rw [hc] at hnot
    cases hnot
  rw [isInert_iff]
  simp only [List.forall_mem_cons, List.not_mem_nil, false_implies, implies_true, and_true] at hne
  simp [isSeparator, isQuote, hne]

/-- Inert characters pass the rewriting of separators unchanged. -/
theorem protect_inert_append {word : List Char} (hword : ∀ c ∈ word, isInert c) (rest : List Char) :
    protect none (word ++ rest) = word ++ protect none rest := by
  induction word with
  | nil => rfl
  | cons c word ih =>
    obtain ⟨hc, hword⟩ := List.forall_mem_cons.1 hword
    obtain ⟨-, hquote, -, hslash⟩ := isInert_iff.1 hc
    have htoggle : toggle none c = none := by simp [toggle, hquote]
    rw [List.cons_append, protect_cons fun h => hslash h.1, htoggle, ih hword, List.cons_append]

/-- An inert character goes on with the word that it stands in. -/
theorem shellWords_inert {c : Char} (hc : isInert c) (word : Option (List Char)) (rest : List Char) :
    shellWords (.outside word) (c :: rest) =
      shellWords (.outside (some (word.getD [] ++ [c]))) rest := by
  obtain ⟨hseparator, hquote, hcomment, hslash⟩ := isInert_iff.1 hc
  obtain ⟨hdouble, hsingle⟩ : c ≠ '"' ∧ c ≠ '\'' := by simpa [isQuote] using hquote
  rw [shellWords_cons fun h => hslash h.1]
  simp [Place.after, Place.ended, hseparator, hcomment, hdouble, hsingle]

/-- So do several inert characters. -/
theorem shellWords_inert_append {word : List Char} (hword : ∀ c ∈ word, isInert c)
    (done rest : List Char) :
    shellWords (.outside (some done)) (word ++ rest) =
      shellWords (.outside (some (done ++ word))) rest := by
  induction word generalizing done with
  | nil => simp
  | cons c word ih =>
    obtain ⟨hc, hword⟩ := List.forall_mem_cons.1 hword
    rw [List.cons_append, shellWords_inert hc, ih hword]
    simp

/-- A word of inert characters before a space is the first word, and the passes start anew after it. -/
theorem words?_inert_append {word : List Char} (hne : word ≠ []) (hword : ∀ c ∈ word, isInert c)
    (rest : List Char) : words? (word ++ ' ' :: rest) = (words? rest).map (word :: ·) := by
  have hspace : protect none (' ' :: rest) = ' ' :: protect none rest :=
    protect_cons (fun h => absurd h.1 (by decide)) rest
  obtain ⟨c, word, rfl⟩ := List.exists_cons_of_ne_nil hne
  obtain ⟨hc, htail⟩ := List.forall_mem_cons.1 hword
  rw [words?, protect_inert_append hword, hspace, List.cons_append, shellWords_inert hc,
    shellWords_inert_append htail]
  rfl

/-! ### Assignments without quotes -/

/-- A character of a value that is written without quotes. -/
def isBareValueChar (c : Char) : Bool :=
  isAsciiLetter c || isAsciiDigit c || ['_', '.', '/', ':', '-'].contains c

/-- An assignment without quotes: the name of a variable, which is an identifier, and a value, which may
be empty. -/
structure BareAssignment where
  first : Char
  name : List Char
  value : List Char
  isIdentifierStart_first : isIdentifierStart first
  isIdentifierPart_of_mem : ∀ c ∈ name, isIdentifierPart c
  isBareValueChar_of_mem : ∀ c ∈ value, isBareValueChar c

namespace BareAssignment

def word (a : BareAssignment) : List Char :=
  a.first :: (a.name ++ '=' :: a.value)

/-- The word of an assignment is recognised as one. -/
theorem isAssignment_word (a : BareAssignment) : isAssignment a.word :=
  isAssignment_iff.2
    ⟨a.first, a.name, a.value, rfl, a.isIdentifierStart_first, a.isIdentifierPart_of_mem⟩

/-- The word of an assignment consists of inert characters. -/
theorem isInert_of_mem_word (a : BareAssignment) : ∀ c ∈ a.word, isInert c := by
  intro c hc
  simp only [word, List.mem_cons, List.mem_append] at hc
  rcases hc with rfl | hc | rfl | hc
  · exact isInert_of_class (by decide) a.isIdentifierStart_first
  · exact isInert_of_class (by decide) (a.isIdentifierPart_of_mem c hc)
  · decide
  · exact isInert_of_class (by decide) (a.isBareValueChar_of_mem c hc)

end BareAssignment

/-- **Assignments before a command do not count.** An assignment without quotes and a space before a command
that is not blank change nothing about what the command runs, nor about the reason if that is unknown,
whatever quotes, escapes, comments or assignments are in the command. -/
theorem ofCommand_bareAssignment (a : BareAssignment) {command : String}
    (hcommand : trim command.toList ≠ []) (interpreters : List String) :
    Invocation.ofCommand (String.ofList a.word ++ " " ++ command) interpreters =
      Invocation.ofCommand command interpreters := by
  have htext : (String.ofList a.word ++ " " ++ command).toList = a.word ++ ' ' :: command.toList := by
    simp
  have hword : trim (a.word ++ ' ' :: command.toList) ≠ [] := by
    rw [Ne, trim_eq_nil_iff] at hcommand ⊢
    exact fun hall => hcommand fun c hc =>
      hall c (List.mem_append_right _ (List.mem_cons_of_mem _ hc))
  have hwords : words? (a.word ++ ' ' :: command.toList) =
      (words? command.toList).map (a.word :: ·) :=
    words?_inert_append (List.cons_ne_nil _ _) a.isInert_of_mem_word _
  have hskip (words : List (List Char)) :
      ofWords interpreters (a.word :: words) = ofWords interpreters words := by
    rw [ofWords, ofWords, List.dropWhile_cons_of_pos a.isAssignment_word]
  simp only [Invocation.ofCommand, htext, hwords, List.isEmpty_iff, hword, hcommand, if_false]
  cases words? command.toList with
  | none => rfl
  | some words => exact hskip words

/-- An assignment with an underscore and a digit in its name and most kinds of characters in its value. -/
def searchPath : BareAssignment where
  first := '_'
  name := "P1".toList
  value := "/opt/x-1.0:./bin".toList
  isIdentifierStart_first := rfl
  isIdentifierPart_of_mem := List.all_eq_true.1 rfl
  isBareValueChar_of_mem := List.all_eq_true.1 rfl

/-- Before a command with another assignment, a quoted path and a comment that opens a quote, and before one
that leaves a quote open. -/
theorem ofCommand_bareAssignment_of_comment :
    Invocation.ofCommand "_P1=/opt/x-1.0:./bin B='x y' python3 -u \"my dir/run.py\" C:\\out # it's"
        ["python3"] = .interpreted "python3" "my dir/run.py" ["C:\\out"] ∧
      Invocation.ofCommand "_P1=/opt/x-1.0:./bin python3 'run.py" ["python3"] =
        .obscure .unbalancedQuotes := by
  have hcomment : trim "B='x y' python3 -u \"my dir/run.py\" C:\\out # it's".toList ≠ [] := by
    decide +kernel
  have hopen : trim "python3 'run.py".toList ≠ [] := by decide +kernel
  have hword : String.ofList searchPath.word = "_P1=/opt/x-1.0:./bin" := by decide +kernel
  have hskipComment := ofCommand_bareAssignment searchPath hcomment ["python3"]
  have hskipOpen := ofCommand_bareAssignment searchPath hopen ["python3"]
  rw [hword] at hskipComment hskipOpen
  exact ⟨hskipComment.trans (by decide +kernel), hskipOpen.trans (by decide +kernel)⟩

end Preflight.Command

import Preflight.Command.Invocation
import Preflight.Proofs.Command.OnePass
import Preflight.Proofs.Text.Trimming

/-!
# Quoted commands are recovered

Words that are written in single quotes are split into the same words, whatever
characters they hold (`words?_quoteWords`). The two passes need no agreement on
number signs for this: between the quotes neither of them reads anything but quotes.
A command that calls an interpreter is then taken apart from left to right: the
assignments, the program, `run`, the flags and what is left.
-/

set_option autoImplicit false

namespace Preflight.Command

open Preflight.Text

/-! ### Words in single quotes -/

/-- A character between single quotes. A single quote ends them, stands escaped between two quoted parts
and begins them again. -/
def quoteChar (c : Char) : List Char :=
  if c = '\'' then ['\'', '\\', '\'', '\''] else [c]

/-- A word in the single quotes of a POSIX shell. -/
def quoteWord (word : List Char) : List Char :=
  '\'' :: word.flatMap quoteChar ++ ['\'']

/-- Words in single quotes with spaces between them. -/
def quoteWords (words : List (List Char)) : List Char :=
  [' '].intercalate (words.map quoteWord)

/-- A quoted word is its characters, quoted one by one, between two single quotes. -/
theorem quoteWord_append (word rest : List Char) :
    quoteWord word ++ rest = '\'' :: (word.flatMap quoteChar ++ '\'' :: rest) := by
  simp [quoteWord]

/-- Quoted words are separated by one space. -/
theorem quoteWords_cons_cons (word next : List Char) (words : List (List Char)) :
    quoteWords (word :: next :: words) = quoteWord word ++ ' ' :: quoteWords (next :: words) := by
  simp [quoteWords]

/-- The first pass copies the inside of a quoted word. -/
theorem protect_flatMap_quoteChar (word rest : List Char) :
    protect (some '\'') (word.flatMap quoteChar ++ rest) =
      word.flatMap quoteChar ++ protect (some '\'') rest := by
  induction word with
  | nil => rfl
  | cons c word ih =>
    rw [List.flatMap_cons, List.append_assoc, List.append_assoc, ← ih]
    by_cases hc : c = '\''
    · rw [quoteChar, if_pos hc]
      rfl
    · rw [quoteChar, if_neg hc, List.singleton_append, List.singleton_append,
        protect_cons fun h => h.2 rfl]
      simp [toggle, Ne.symm hc]

/-- The lexer reads back the characters of a quoted word. -/
theorem shellWords_flatMap_quoteChar (done word rest : List Char) :
    shellWords (.singleQuoted done) (word.flatMap quoteChar ++ rest) =
      shellWords (.singleQuoted (done ++ word)) rest := by
  induction word generalizing done with
  | nil => simp
  | cons c word ih =>
    rw [List.flatMap_cons, List.append_assoc]
    have hc : shellWords (.singleQuoted done) (quoteChar c ++ (word.flatMap quoteChar ++ rest)) =
        shellWords (.singleQuoted (done ++ [c])) (word.flatMap quoteChar ++ rest) := by
      by_cases hc : c = '\''
      · rw [quoteChar, if_pos hc, hc]
        rfl
      · rw [quoteChar, if_neg hc, List.singleton_append, shellWords, if_neg hc]
    rw [hc, ih]
    simp

/-- The first pass leaves a quoted word as it is. -/
theorem protect_quoteWord (word rest : List Char) :
    protect none (quoteWord word ++ rest) = quoteWord word ++ protect none rest := by
  rw [quoteWord_append, quoteWord_append]
  show '\'' :: protect (some '\'') (word.flatMap quoteChar ++ '\'' :: rest) = _
  rw [protect_flatMap_quoteChar]
  rfl

/-- The second pass reads a quoted word as the word. -/
theorem shellWords_quoteWord (word rest : List Char) :
    shellWords (.outside none) (quoteWord word ++ rest) = shellWords (.outside (some word)) rest := by
  rw [quoteWord_append]
  show shellWords (.singleQuoted []) (word.flatMap quoteChar ++ '\'' :: rest) = _
  rw [shellWords_flatMap_quoteChar]
  rfl

/-- The first pass copies quoted words, since their backslashes escape a quote or stand in single
quotes. -/
theorem protect_quoteWords : ∀ words, protect none (quoteWords words) = quoteWords words
  | [] => rfl
  | [word] => by simpa [quoteWords, protect] using protect_quoteWord word []
  | word :: next :: words => by
    rw [quoteWords_cons_cons, protect_quoteWord, protect_cons fun h => absurd h.1 (by decide)]
    show quoteWord word ++ ' ' :: protect none (quoteWords (next :: words)) = _
    rw [protect_quoteWords (next :: words)]

/-- The lexer reads back the words that have been quoted. -/
theorem shellWords_quoteWords : ∀ words, shellWords (.outside none) (quoteWords words) = some words
  | [] => rfl
  | [word] => by simpa [quoteWords, shellWords] using shellWords_quoteWord word []
  | word :: next :: words => by
    rw [quoteWords_cons_cons, shellWords_quoteWord]
    show (shellWords (.outside none) (quoteWords (next :: words))).map (word :: ·) = _
    rw [shellWords_quoteWords (next :: words)]
    rfl

/-- Quoted words begin with a quote. -/
theorem exists_quoteWords {words : List (List Char)} (h : words ≠ []) :
    ∃ rest, quoteWords words = '\'' :: rest := by
  obtain ⟨word, words, rfl⟩ := List.exists_cons_of_ne_nil h
  cases words with
  | nil => exact ⟨_, by rw [quoteWords, List.map_singleton, List.intercalate_singleton, quoteWord,
      List.cons_append]⟩
  | cons next words => exact ⟨_, by rw [quoteWords_cons_cons, quoteWord_append]⟩

/-- Quoted words are split into the words that were quoted. -/
theorem words?_quoteWords (words : List (List Char)) : words? (quoteWords words) = some words := by
  rw [words?, protect_quoteWords, shellWords_quoteWords]

/-! ### Calls of an interpreter -/

/-- A word that sets a variable: an identifier, an equals sign and a value. -/
def IsAssignment (word : List Char) : Prop :=
  ∃ c name value, word = c :: (name ++ '=' :: value) ∧ isIdentifierStart c ∧
    ∀ d ∈ name, isIdentifierPart d

/-- The test for an assignment is its grammar: a name, an equals sign and anything after it. -/
theorem isAssignment_iff {word : List Char} : isAssignment word ↔ IsAssignment word := by
  constructor
  · intro h
    cases word with
    | nil => exact absurd h Bool.false_ne_true
    | cons c rest =>
      by_cases hc : isIdentifierStart c
      · rw [isAssignment, identifier?, if_pos hc] at h
        obtain ⟨value, hvalue⟩ : ∃ value, rest.dropWhile isIdentifierPart = '=' :: value := by
          split at h
          · next hdrop => exact ⟨_, (Prod.mk.inj (Option.some.inj hdrop)).2⟩
          · exact absurd h Bool.false_ne_true
        refine ⟨c, rest.takeWhile isIdentifierPart, value, ?_, hc, fun d => List.mem_takeWhile_imp⟩
        rw [← hvalue, List.takeWhile_append_dropWhile]
      · simp [isAssignment, identifier?, hc] at h
  · rintro ⟨c, name, value, rfl, hc, hname⟩
    have hrest : (name ++ '=' :: value).dropWhile isIdentifierPart = '=' :: value := by
      rw [List.dropWhile_append_of_pos hname]
      rfl
    simp [isAssignment, identifier?, hc, hrest]

/-- A call of a script by an interpreter, in its parts. -/
structure ScriptCall (interpreters : List String) where
  assignments : List (List Char)
  program : List Char
  flags : List (List Char)
  script : List Char
  args : List (List Char)
  isAssignment_of_mem : ∀ word ∈ assignments, IsAssignment word
  not_isAssignment : ¬IsAssignment program
  known : ∃ i ∈ interpreters, equalsIgnoringCase i.toList (programName program)
  isFlag_of_mem : ∀ flag ∈ flags, flag.head? = some '-' ∧ isInlineCodeFlag flag = false
  script_not_flag : script.head? ≠ some '-'

namespace ScriptCall

variable {interpreters : List String}

/-- The name of the interpreter. -/
def name (call : ScriptCall interpreters) : List Char :=
  programName call.program

/-- The words between the program and its flags. -/
def run (call : ScriptCall interpreters) : List (List Char) :=
  if takesRun call.name then ["run".toList] else []

/-- The words of the command. -/
def words (call : ScriptCall interpreters) : List (List Char) :=
  call.assignments ++ call.program :: (call.run ++ (call.flags ++ call.script :: call.args))

end ScriptCall

/-- Flags after an interpreter that hold no code are passed over. -/
theorem afterInterpreter_flags {flags : List (List Char)}
    (hflags : ∀ flag ∈ flags, flag.head? = some '-' ∧ isInlineCodeFlag flag = false)
    (name : List Char) (words : List (List Char)) :
    afterInterpreter name (flags ++ words) = afterInterpreter name words := by
  induction flags with
  | nil => rfl
  | cons flag flags ih =>
    obtain ⟨⟨hflag, hcode⟩, hflags⟩ := List.forall_mem_cons.1 hflags
    rw [List.cons_append, afterInterpreter, if_pos hflag, hcode, if_neg Bool.false_ne_true, ih hflags]

section

variable {interpreters : List String} (call : ScriptCall interpreters)

/-- The word `run` is passed over exactly after the interpreters that take it. -/
theorem skipRun_run (flags : List (List Char)) (script : List Char) (args : List (List Char)) :
    skipRun call.name (call.run ++ (flags ++ script :: args)) = flags ++ script :: args := by
  rw [ScriptCall.run]
  split
  · next hrun => simp [skipRun, hrun]
  · next hrun =>
    cases flags with
    | nil => simp [skipRun, hrun]
    | cons flag flags => simp [skipRun, hrun]

/-- The words of a script call are read as the interpreter, the script and its arguments. -/
theorem ofWords_words : ofWords interpreters call.words =
    .interpreted (String.ofList call.name) (String.ofList call.script)
      (call.args.map String.ofList) := by
  have hassignments : ∀ word ∈ call.assignments, isAssignment word := fun word hmem =>
    isAssignment_iff.2 (call.isAssignment_of_mem word hmem)
  have hprogram : ¬isAssignment call.program := fun h =>
    call.not_isAssignment (isAssignment_iff.1 h)
  have hknown : (interpreters.any fun i => equalsIgnoringCase i.toList call.name) = true :=
    List.any_eq_true.2 call.known
  rw [ofWords, ScriptCall.words, List.dropWhile_append_of_pos hassignments,
    List.dropWhile_cons_of_neg hprogram]
  show (if interpreters.any fun i => equalsIgnoringCase i.toList call.name then
      afterInterpreter call.name (skipRun call.name _) else _) = _
  rw [if_pos hknown, skipRun_run, afterInterpreter_flags call.isFlag_of_mem, afterInterpreter,
    if_neg call.script_not_flag]

end

/-- A call of an interpreter whose words are quoted is recovered, whatever characters its words hold. -/
theorem ofCommand_quoteWords (interpreters : List String) (call : ScriptCall interpreters) :
    Invocation.ofCommand (String.ofList (quoteWords call.words)) interpreters =
      .interpreted (String.ofList call.name) (String.ofList call.script)
        (call.args.map String.ofList) := by
  have hblank : (trim (quoteWords call.words)).isEmpty = false := by
    have hwords : call.words ≠ [] := List.append_ne_nil_of_right_ne_nil _ (List.cons_ne_nil _ _)
    obtain ⟨rest, hrest⟩ := exists_quoteWords hwords
    rw [hrest, trim_cons rfl]
    rfl
  rw [Invocation.ofCommand, String.toList_ofList, hblank, if_neg Bool.false_ne_true,
    words?_quoteWords]
  exact ofWords_words call

/-- Words with a quote, a number sign, a line feed, a dollar sign and a lone backslash, and an interpreter
that takes `run`. -/
theorem ofCommand_quoteWords_of_deno :
    Invocation.ofCommand
        "'NOTE=it'\\''s #1' 'C:\\bin\\Deno.EXE' 'run' '--quiet' 'a b\n$c.ts' '\"' '\\'" ["node", "DENO"] =
      .interpreted "deno" "a b\n$c.ts" ["\"", "\\"] := by
  let call : ScriptCall ["node", "DENO"] :=
    { assignments := ["NOTE=it's #1".toList]
      program := "C:\\bin\\Deno.EXE".toList
      flags := ["--quiet".toList]
      script := "a b\n$c.ts".toList
      args := [['"'], ['\\']]
      isAssignment_of_mem := by
        intro word hword
        rw [List.mem_singleton.1 hword, ← isAssignment_iff]
        rfl
      not_isAssignment := by
        rw [← isAssignment_iff]
        decide +kernel
      known := ⟨"DENO", by simp, by decide +kernel⟩
      isFlag_of_mem := by decide +kernel
      script_not_flag := by decide +kernel }
  exact ofCommand_quoteWords _ call

end Preflight.Command

import Mathlib.Data.List.Chain
import Mathlib.Tactic.MkIffOfInductiveProp
import Preflight.Command.Words

/-!
# The two passes over a command are one

The words of a command are found in two passes, each with an idea of its own of
which quote is open. Without comments the two stay in step: together they are the
lexer of the shell with one rule changed, namely that outside single quotes a
backslash is a character like others unless a blank, a quote or a dollar sign
follows it (`shellWords_protect`). So words are found unless a quote is left open
(`lex_eq_none_iff`), and the backslashes of a path stay (`lex_barePaths`,
`lex_quotedPath`).
-/

set_option autoImplicit false

namespace Preflight.Command

open Preflight.Text

/-! ### A lexer with one rule left open -/

namespace Place

/-- Whether a backslash may escape here. -/
def knowsEscapes : Place → Bool
  | outside _ | doubleQuoted _ => true
  | comment | singleQuoted _ => false

/-- The place after a character that is not escaped. -/
def after : Place → Char → Place
  | comment, c => if c = '\n' then outside none else comment
  | singleQuoted word, c => if c = '\'' then outside (some word) else singleQuoted (word ++ [c])
  | doubleQuoted word, c => if c = '"' then outside (some word) else doubleQuoted (word ++ [c])
  | outside word, c =>
    if isSeparator c then outside none
    else if c = '#' ∧ word = none then comment
    else if c = '\'' then singleQuoted (word.getD [])
    else if c = '"' then doubleQuoted (word.getD [])
    else outside (some (word.getD [] ++ [c]))

/-- The word that ends with a character, if there is one. -/
def ended : Place → Char → Option (List Char)
  | outside word, c => if isSeparator c then word else none
  | _, _ => none

/-- The place after a backslash and the character that it escapes. -/
def afterEscaped : Place → Char → Place
  | outside word, c =>
    outside (some (if c = '\n' then word.getD [] else word.getD [] ++ [c]))
  | doubleQuoted word, c =>
    doubleQuoted
      (if c = '\n' then word
      else if isDoubleQuoteEscape c then word ++ [c]
      else word ++ ['\\', c])
  | place, _ => place

/-- The words that are left at the end of a text; none if a quote is open. -/
def finish : Place → Option (List (List Char))
  | outside word => some word.toList
  | comment => some []
  | singleQuoted _ | doubleQuoted _ => none

/-- The quote that is open at a place. -/
def quote? : Place → Option Char
  | singleQuoted _ => some '\''
  | doubleQuoted _ => some '"'
  | outside _ | comment => none

end Place

/-- Split a text into words by the quoting rules of a POSIX shell, with one rule left open: whether a
backslash outside single quotes escapes, given the next character, if there is one. A backslash that
does not is a character like others. -/
def lex (escapes : Option Char → Bool) : Place → List Char → Option (List (List Char))
  | place, [] => place.finish
  | place, c :: rest =>
    if c = '\\' ∧ place.knowsEscapes ∧ escapes rest.head? then
      match rest with
      | [] => none
      | next :: rest => lex escapes (place.afterEscaped next) rest
    else (lex escapes (place.after c) rest).map ((place.ended c).toList ++ ·)

/-- The rule of the shell: every backslash escapes. -/
def shellEscapes (_ : Option Char) : Bool := true

/-- The rule for commands: a backslash escapes a blank, a quote or a dollar sign. -/
def commandEscapes (next : Option Char) : Bool := next.any isEscapable

/-- A character that is not an escaping backslash moves the place, and may end a word. -/
theorem lex_cons {escapes : Option Char → Bool} {place : Place} {c : Char} {rest : List Char}
    (h : ¬(c = '\\' ∧ place.knowsEscapes ∧ escapes rest.head?)) :
    lex escapes place (c :: rest) =
      (lex escapes (place.after c) rest).map ((place.ended c).toList ++ ·) := by
  rw [lex.eq_def]
  exact if_neg h

/-- A character other than a backslash moves the place, and may end a word. -/
theorem lex_cons_of_ne {escapes : Option Char → Bool} {place : Place} {c : Char} (hc : c ≠ '\\')
    (rest : List Char) :
    lex escapes place (c :: rest) =
      (lex escapes (place.after c) rest).map ((place.ended c).toList ++ ·) :=
  lex_cons fun h => hc h.1

/-! ### The lexer of the shell, a step at a time -/

/-- At the end of a text the lexer of the shell returns what its place has left. -/
theorem shellWords_nil (place : Place) : shellWords place [] = place.finish := by
  cases place with
  | outside word => cases word <;> rfl
  | _ => rfl

/-- The lexer of the shell moves as `Place.after` says, and lets out the word of `Place.ended`. -/
theorem shellWords_cons {place : Place} {c : Char} (h : ¬(c = '\\' ∧ place.knowsEscapes))
    (rest : List Char) :
    shellWords place (c :: rest) =
      (shellWords (place.after c) rest).map ((place.ended c).toList ++ ·) := by
  cases place with
  | comment =>
    simp only [shellWords, Place.after, Place.ended]
    split <;> simp
  | singleQuoted word =>
    simp only [shellWords, Place.after, Place.ended]
    split <;> simp
  | doubleQuoted word =>
    have hc : c ≠ '\\' := fun hc => h ⟨hc, rfl⟩
    rw [shellWords, if_neg hc]
    · simp only [Place.after, Place.ended]
      split <;> simp
    · intro _ _ hslash _
      exact hc hslash
  | outside word =>
    have hc : c ≠ '\\' := fun hc => h ⟨hc, rfl⟩
    simp only [Place.after, Place.ended]
    -- only at a separator does it matter whether a word has been begun
    cases word
    all_goals
      rw [shellWords, if_neg hc]
      · split
        · simp
        · split
          · simp
          · split
            · simp
            · split <;> simp
      · intro _ _ hslash _
        exact hc hslash

section

variable {place : Place}

/-- Where backslashes are known, the lexer of the shell reads one together with the next character. -/
theorem shellWords_escaped (h : place.knowsEscapes) (c : Char) (rest : List Char) :
    shellWords place ('\\' :: c :: rest) = shellWords (place.afterEscaped c) rest := by
  cases place with
  | comment => cases h
  | singleQuoted word => cases h
  | doubleQuoted word =>
    simp only [shellWords, Place.afterEscaped]
    split
    · rfl
    · split <;> rfl
  | outside word =>
    simp only [shellWords, Place.afterEscaped]
    split <;> rfl

/-- A backslash that ends a text escapes nothing, and no words are found. -/
theorem shellWords_backslash (h : place.knowsEscapes) : shellWords place ['\\'] = none := by
  cases place with
  | comment => cases h
  | singleQuoted word => cases h
  | doubleQuoted word => rfl
  | outside word => cases word <;> rfl

end

/-- With the rule of the shell, the lexer is that of the shell. -/
theorem lex_shellEscapes (place : Place) (s : List Char) :
    lex shellEscapes place s = shellWords place s := by
  fun_induction lex shellEscapes place s with
  | case1 place => exact (shellWords_nil place).symm
  | case2 place c h =>
    obtain ⟨rfl, hknows, -⟩ := h
    exact (shellWords_backslash hknows).symm
  | case3 place c next rest h ih =>
    obtain ⟨rfl, hknows, -⟩ := h
    rw [ih, shellWords_escaped hknows]
  | case4 place c rest h ih =>
    have hc : ¬(c = '\\' ∧ place.knowsEscapes) := fun hc => h ⟨hc.1, hc.2, rfl⟩
    rw [ih, shellWords_cons hc]

/-! ### Which quote is open -/

def isQuote (c : Char) : Bool :=
  c == '"' || c == '\''

/-- The quote that is open after a character: the quote that is open closes itself, and only where none
is open, one opens. -/
def toggle (quote : Option Char) (c : Char) : Option Char :=
  if quote = some c then none
  else if quote = none ∧ isQuote c then some c
  else quote

/-- The quote that is open at the end of a text, given the one at its start. Outside single quotes a
backslash hides the quote after it. -/
def openQuote : Option Char → List Char → Option Char
  | quote, [] => quote
  | quote, c :: rest =>
    if c = '\\' ∧ quote ≠ some '\'' ∧ rest.head?.any isQuote then
      match rest with
      | [] => quote
      | _ :: rest => openQuote quote rest
    else openQuote (toggle quote c) rest

/-- No backslash is protected by another one. -/
theorem ne_backslash_of_isEscapable {c : Char} (h : isEscapable c) : c ≠ '\\' := by
  rintro rfl
  exact absurd h (by decide)

/-- Both quotes may be escaped. -/
theorem isEscapable_of_isQuote {c : Char} (h : isQuote c) : isEscapable c := by
  obtain rfl | rfl : c = '"' ∨ c = '\'' := by simpa [isQuote] using h
  · rfl
  · rfl

namespace Place

variable {place : Place}

/-- Outside comments backslashes escape, except between single quotes. -/
theorem knowsEscapes_iff (hplace : place ≠ comment) :
    place.knowsEscapes ↔ place.quote? ≠ some '\'' := by
  cases place <;> simp_all [knowsEscapes, quote?]

/-- An escaped character opens and closes no quote. -/
theorem quote?_afterEscaped (place : Place) (c : Char) :
    (place.afterEscaped c).quote? = place.quote? := by
  cases place <;> rfl

/-- An escaped character begins no comment. -/
theorem afterEscaped_ne_comment (hplace : place ≠ comment) (c : Char) :
    place.afterEscaped c ≠ comment := by
  cases place <;> simp_all [afterEscaped]

/-- Read on its own, a backslash joins the word, as it does if it is escaped. -/
theorem after_backslash (h : place.knowsEscapes) :
    place.after '\\' = place.afterEscaped '\\' ∧ place.ended '\\' = none := by
  cases place with
  | comment => cases h
  | singleQuoted word => cases h
  | doubleQuoted word => exact ⟨rfl, rfl⟩
  | outside word => exact ⟨rfl, rfl⟩

/-- Outside quotes only a quote leads into one. -/
theorem exists_after_outside (word : Option (List Char)) {c : Char} (hc : c ≠ '#')
    (hquote : isQuote c = false) : ∃ word', (outside word).after c = outside word' := by
  have hcomment : ¬(c = '#' ∧ word = none) := fun hcomment => hc hcomment.1
  obtain ⟨hdouble, hsingle⟩ : c ≠ '"' ∧ c ≠ '\'' := by simpa [isQuote] using hquote
  simp only [after, hcomment, hdouble, hsingle, if_false]
  split
  · exact ⟨none, rfl⟩
  · exact ⟨some (word.getD [] ++ [c]), rfl⟩

/-- A quote outside quotes opens itself. -/
theorem after_outside_of_isQuote (word : Option (List Char)) {c : Char} (hquote : isQuote c = true) :
    (outside word).after c ≠ comment ∧ ((outside word).after c).quote? = some c := by
  obtain rfl | rfl : c = '"' ∨ c = '\'' := by simpa [isQuote] using hquote
  · exact ⟨Place.noConfusion, rfl⟩
  · exact ⟨Place.noConfusion, rfl⟩

/-- Without a number sign no comment begins. -/
theorem after_ne_comment (hplace : place ≠ comment) {c : Char} (hc : c ≠ '#') :
    place.after c ≠ comment := by
  cases place with
  | comment => exact absurd rfl hplace
  | singleQuoted word =>
    simp only [after]
    split <;> exact Place.noConfusion
  | doubleQuoted word =>
    simp only [after]
    split <;> exact Place.noConfusion
  | outside word =>
    cases hquote : isQuote c with
    | true => exact (after_outside_of_isQuote word hquote).1
    | false =>
      obtain ⟨word', hafter⟩ := exists_after_outside word hc hquote
      rw [hafter]
      exact Place.noConfusion

/-- The lexer and the pass that doubles backslashes agree on the quote that is open after a character.
-/
theorem quote?_after (hplace : place ≠ comment) {c : Char} (hc : c ≠ '#') :
    (place.after c).quote? = toggle place.quote? c := by
  cases place with
  | comment => exact absurd rfl hplace
  | singleQuoted word =>
    simp only [after, toggle, quote?, Option.some.injEq, eq_comm]
    split <;> simp
  | doubleQuoted word =>
    simp only [after, toggle, quote?, Option.some.injEq, eq_comm]
    split <;> simp
  | outside word =>
    cases hquote : isQuote c with
    | true =>
      rw [(after_outside_of_isQuote word hquote).2]
      simp [toggle, quote?, hquote]
    | false =>
      obtain ⟨word', hafter⟩ := exists_after_outside word hc hquote
      rw [hafter]
      simp [toggle, quote?, hquote]

/-- A character that is no quote changes nothing about the quote that is open. -/
theorem toggle_quote? (place : Place) {c : Char} (hquote : isQuote c = false) :
    toggle place.quote? c = place.quote? := by
  cases place with
  | singleQuoted word =>
    have hne : c ≠ '\'' := fun h => by simp [h, isQuote] at hquote
    simp [toggle, quote?, hne.symm]
  | doubleQuoted word =>
    have hne : c ≠ '"' := fun h => by simp [h, isQuote] at hquote
    simp [toggle, quote?, hne.symm]
  | _ => simp [toggle, quote?, hquote]

end Place

/-- A character that is not a backslash before a quote toggles the quote that is open. -/
theorem openQuote_cons {quote : Option Char} {c : Char} {rest : List Char}
    (h : ¬(c = '\\' ∧ quote ≠ some '\'' ∧ rest.head?.any isQuote)) :
    openQuote quote (c :: rest) = openQuote (toggle quote c) rest := by
  rw [openQuote.eq_def]
  exact if_neg h

/-- What a backslash escapes opens and closes no quote. -/
theorem openQuote_escaped {place : Place} (h : place.quote? ≠ some '\'') {c : Char}
    (hc : isEscapable c) (rest : List Char) :
    openQuote place.quote? ('\\' :: c :: rest) = openQuote place.quote? rest := by
  cases hquote : isQuote c with
  | true => rw [openQuote, if_pos ⟨rfl, h, hquote⟩]
  | false =>
    have hslash : ¬('\\' = '\\' ∧ place.quote? ≠ some '\'' ∧ (c :: rest).head?.any isQuote) := by
      simp [hquote]
    have hc : ¬(c = '\\' ∧ place.quote? ≠ some '\'' ∧ rest.head?.any isQuote) := fun h =>
      ne_backslash_of_isEscapable hc h.1
    rw [openQuote_cons hslash, place.toggle_quote? rfl, openQuote_cons hc,
      place.toggle_quote? hquote]

/-- Words are found unless a quote is left open. -/
theorem lex_eq_none_iff {place : Place} {s : List Char} (hplace : place ≠ .comment) (hs : '#' ∉ s) :
    lex commandEscapes place s = none ↔ openQuote place.quote? s ≠ none := by
  fun_induction lex commandEscapes place s with
  | case1 place => cases place <;> simp [Place.finish, Place.quote?, openQuote]
  | case2 place c h => exact absurd h.2.2 Bool.false_ne_true
  | case3 place c next rest h ih =>
    obtain ⟨rfl, hknows, hescapes⟩ := h
    have hrest := ih (Place.afterEscaped_ne_comment hplace next) fun hmem =>
      hs (List.mem_cons_of_mem _ (List.mem_cons_of_mem _ hmem))
    rw [hrest, Place.quote?_afterEscaped,
      openQuote_escaped ((Place.knowsEscapes_iff hplace).1 hknows) hescapes]
  | case4 place c rest h ih =>
    have hc : c ≠ '#' := fun hc => hs (hc ▸ List.mem_cons_self ..)
    have hrest := ih (Place.after_ne_comment hplace hc) fun hmem => hs (List.mem_cons_of_mem _ hmem)
    have hslash : ¬(c = '\\' ∧ place.quote? ≠ some '\'' ∧ rest.head?.any isQuote) := by
      rintro ⟨rfl, hquote, hany⟩
      refine h ⟨rfl, (Place.knowsEscapes_iff hplace).2 hquote, ?_⟩
      cases rest with
      | nil => exact hany
      | cons next rest => exact isEscapable_of_isQuote hany
    rw [Option.map_eq_none_iff, hrest, Place.quote?_after hplace hc, openQuote_cons hslash]

/-! ### The pass that doubles backslashes -/

/-- Apart from a backslash outside single quotes, the first pass copies what it reads. -/
theorem protect_cons {quote : Option Char} {c : Char} (h : ¬(c = '\\' ∧ quote ≠ some '\''))
    (rest : List Char) : protect quote (c :: rest) = c :: protect (toggle quote c) rest := by
  by_cases hc : c = '\\'
  · obtain rfl : quote = some '\'' := not_not.1 fun hquote => h ⟨hc, hquote⟩
    subst hc
    cases rest with
    | nil => rfl
    | cons next rest => rfl
  · cases quote with
    | none =>
      rw [protect.eq_4 c rest hc]
      by_cases hquote : c = '"' ∨ c = '\''
      · simp [toggle, isQuote, hquote]
      · simp [toggle, isQuote, hquote]
    | some quote =>
      rw [protect.eq_5 quote c rest hc]
      by_cases hquote : c = quote
      · simp [toggle, hquote]
      · simp [toggle, hquote, Ne.symm hquote]

section

variable {quote : Option Char}

/-- The first pass leaves a backslash single if the next character may be escaped. -/
theorem protect_escaped (hquote : quote ≠ some '\'') {c : Char} (hc : isEscapable c)
    (rest : List Char) :
    protect quote ('\\' :: c :: rest) = '\\' :: c :: protect quote rest := by
  rw [protect, if_neg hquote, if_pos hc]

/-- The first pass doubles a backslash if the next character may not be escaped. -/
theorem protect_backslash (hquote : quote ≠ some '\'') {rest : List Char}
    (hrest : rest.head?.any isEscapable = false) :
    protect quote ('\\' :: rest) = '\\' :: '\\' :: protect quote rest := by
  cases rest with
  | nil => rw [protect.eq_3, if_neg hquote, protect]
  | cons next rest =>
    have hnext : isEscapable next = false := hrest
    rw [protect, if_neg hquote, hnext, if_neg Bool.false_ne_true]

end

/-- The two passes stay in step: a text split after its backslashes are doubled is split by the rule for
commands. -/
theorem shellWords_protect {place : Place} {s : List Char} (hplace : place ≠ .comment)
    (hs : '#' ∉ s) :
    shellWords place (protect place.quote? s) = lex commandEscapes place s := by
  fun_induction lex commandEscapes place s with
  | case1 place => rw [protect, shellWords_nil]
  | case2 place c h => exact absurd h.2.2 Bool.false_ne_true
  | case3 place c next rest h ih =>
    obtain ⟨rfl, hknows, hescapes⟩ := h
    have hquote := (Place.knowsEscapes_iff hplace).1 hknows
    rw [protect_escaped hquote hescapes, shellWords_escaped hknows,
      ← place.quote?_afterEscaped next]
    exact ih (Place.afterEscaped_ne_comment hplace next) fun hmem =>
      hs (List.mem_cons_of_mem _ (List.mem_cons_of_mem _ hmem))
  | case4 place c rest h ih =>
    have hc : c ≠ '#' := fun hc => hs (hc ▸ List.mem_cons_self ..)
    have hrest := ih (Place.after_ne_comment hplace hc) fun hmem => hs (List.mem_cons_of_mem _ hmem)
    by_cases hslash : c = '\\' ∧ place.knowsEscapes
    · -- the first pass writes two backslashes, of which the second pass reads one
      obtain ⟨rfl, hknows⟩ := hslash
      have hquote := (Place.knowsEscapes_iff hplace).1 hknows
      have hescapes : rest.head?.any isEscapable = false :=
        Bool.eq_false_iff.2 fun hany => h ⟨rfl, hknows, hany⟩
      obtain ⟨hafter, hended⟩ := Place.after_backslash hknows
      rw [hafter] at hrest
      rw [place.quote?_afterEscaped] at hrest
      rw [protect_backslash hquote hescapes, shellWords_escaped hknows, hrest, hafter, hended]
      simp
    · have hquote : ¬(c = '\\' ∧ place.quote? ≠ some '\'') := fun hquote =>
        hslash ⟨hquote.1, (Place.knowsEscapes_iff hplace).2 hquote.2⟩
      rw [protect_cons hquote, shellWords_cons hslash, ← Place.quote?_after hplace hc, hrest]

/-! ### Paths keep their backslashes -/

/-- A character of a path without quotes: it ends no word, opens no quote and begins no comment. -/
def isPlain (c : Char) : Bool :=
  !isSeparator c && !isQuote c && c != '#'

/-- If the first of two characters is a backslash, it does not escape the second. -/
def Separates (c next : Char) : Prop :=
  c = '\\' → isEscapable next = false

instance : DecidableRel Separates := fun c next =>
  inferInstanceAs (Decidable (c = '\\' → isEscapable next = false))

/-- If the first of two characters between double quotes is a backslash, it does not escape the second.
Of what a backslash may escape, a blank and a single quote are read there with their backslash. -/
def SeparatesInQuotes (c next : Char) : Prop :=
  c = '\\' → next ≠ '"' ∧ next ≠ '$' ∧ next ≠ '\n'

instance : DecidableRel SeparatesInQuotes := fun c next =>
  inferInstanceAs (Decidable (c = '\\' → next ≠ '"' ∧ next ≠ '$' ∧ next ≠ '\n'))

/-- A path that is written without quotes and whose backslashes escape nothing. -/
@[mk_iff]
structure IsBarePath (path : List Char) : Prop where
  ne_nil : path ≠ []
  plain : path.all isPlain
  separates : path.IsChain Separates

instance (path : List Char) : Decidable (IsBarePath path) :=
  decidable_of_iff' _ (isBarePath_iff path)

/-- A bare path has no number sign, so no comment begins in it. -/
theorem IsBarePath.number_sign_not_mem {path : List Char} (h : IsBarePath path) : '#' ∉ path := by
  intro hmem
  exact absurd (List.all_eq_true.1 h.plain '#' hmem) (by decide)

/-- Outside quotes a plain character joins the word that is being read, or begins one. -/
theorem lex_plain {c : Char} {rest : List Char} (hc : isPlain c)
    (hrest : ∀ next ∈ rest.head?, Separates c next) (word : Option (List Char)) :
    lex commandEscapes (.outside word) (c :: rest) =
      lex commandEscapes (.outside (some (word.getD [] ++ [c]))) rest := by
  have hslash : ¬(c = '\\' ∧ (Place.outside word).knowsEscapes ∧ commandEscapes rest.head?) := by
    rintro ⟨rfl, -, hany⟩
    cases rest with
    | nil => exact absurd hany Bool.false_ne_true
    | cons next rest => exact absurd hany (Bool.eq_false_iff.1 (hrest next rfl rfl))
  obtain ⟨⟨hseparator, hdouble, hsingle⟩, hcomment⟩ :
      (isSeparator c = false ∧ c ≠ '"' ∧ c ≠ '\'') ∧ c ≠ '#' := by
    simpa [isPlain, isQuote] using hc
  rw [lex_cons hslash]
  simp [Place.after, Place.ended, hseparator, hdouble, hsingle, hcomment]

/-- A relation along a text holds between its first character and the next one, and along the rest. -/
theorem isChain_cons_append {r : Char → Char → Prop} {c : Char} {s rest : List Char}
    (h : (c :: s ++ rest.head?.toList).IsChain r) :
    (∀ next ∈ (s ++ rest).head?, r c next) ∧ (s ++ rest.head?.toList).IsChain r := by
  obtain ⟨hnext, hs⟩ := List.isChain_cons.1 h
  refine ⟨fun next hmem => hnext next ?_, hs⟩
  cases s with
  | nil => cases rest <;> exact hmem
  | cons d s => exact hmem

/-- Outside quotes plain characters join the word as they stand, backslashes included. -/
theorem lex_plain_append {path rest : List Char} (hplain : ∀ c ∈ path, isPlain c)
    (hpath : (path ++ rest.head?.toList).IsChain Separates) (word : List Char) :
    lex commandEscapes (.outside (some word)) (path ++ rest) =
      lex commandEscapes (.outside (some (word ++ path))) rest := by
  induction path generalizing word with
  | nil => simp
  | cons c path ih =>
    obtain ⟨hc, hplain⟩ := List.forall_mem_cons.1 hplain
    obtain ⟨hnext, hpath⟩ := isChain_cons_append hpath
    rw [List.cons_append, lex_plain hc hnext, ih hplain hpath]
    simp

/-- A bare path is read as one word, which may go on after it. -/
theorem lex_barePath {path rest : List Char} (h : IsBarePath path)
    (hpath : (path ++ rest.head?.toList).IsChain Separates) :
    lex commandEscapes (.outside none) (path ++ rest) =
      lex commandEscapes (.outside (some path)) rest := by
  obtain ⟨c, path, rfl⟩ := List.exists_cons_of_ne_nil h.ne_nil
  obtain ⟨hc, hplain⟩ := List.forall_mem_cons.1 (List.all_eq_true.1 h.plain)
  obtain ⟨hnext, hpath⟩ := isChain_cons_append hpath
  rw [List.cons_append, lex_plain hc hnext, lex_plain_append hplain hpath]
  rfl

/-- Paths that are separated by spaces are the words, if none before the last ends in a backslash. -/
theorem lex_barePaths {paths : List (List Char)} {last : List Char}
    (hpaths : ∀ path ∈ paths, IsBarePath path ∧ path.getLast? ≠ some '\\') (hlast : IsBarePath last) :
    lex commandEscapes (.outside none) (paths.flatMap (· ++ [' ']) ++ last) =
      some (paths ++ [last]) := by
  induction paths with
  | nil =>
    have hlex := @lex_barePath last [] hlast (by simpa using hlast.separates)
    rw [List.append_nil] at hlex
    rw [List.flatMap_nil, List.nil_append, hlex]
    rfl
  | cons path paths ih =>
    obtain ⟨⟨hpath, hend⟩, hpaths⟩ := List.forall_mem_cons.1 hpaths
    have hspace : (path ++ [' ']).IsChain Separates := by
      refine List.isChain_append.2 ⟨hpath.separates, List.isChain_singleton _, ?_⟩
      rintro c hc - - rfl
      exact absurd hc hend
    calc
      _ = lex commandEscapes (.outside none)
          (path ++ ' ' :: (paths.flatMap (· ++ [' ']) ++ last)) := by simp
      _ = lex commandEscapes (.outside (some path))
          (' ' :: (paths.flatMap (· ++ [' ']) ++ last)) := lex_barePath hpath hspace
      _ = (lex commandEscapes (.outside none) (paths.flatMap (· ++ [' ']) ++ last)).map
          ([path] ++ ·) := lex_cons_of_ne (by decide) _
      _ = some ((path :: paths) ++ [last]) := by
        rw [ih hpaths]
        rfl

/-- Between double quotes a character joins the word, with the backslash before it if there is one. -/
theorem lex_inQuotes {c : Char} {rest : List Char} (hc : c ≠ '"')
    (hrest : ∀ next ∈ rest.head?, SeparatesInQuotes c next) (word : List Char) :
    lex commandEscapes (.doubleQuoted word) (c :: rest) =
      lex commandEscapes (.doubleQuoted (word ++ [c])) rest := by
  by_cases hescapes : c = '\\' ∧ commandEscapes rest.head?
  · -- what is escaped is read with its backslash, as if each of the two were read on its own
    obtain ⟨rfl, hany⟩ := hescapes
    cases rest with
    | nil => exact absurd hany Bool.false_ne_true
    | cons next rest =>
      have hnext : isEscapable next := hany
      obtain ⟨hquote, hdollar, hfeed⟩ := hrest next rfl rfl
      have hescape : isDoubleQuoteEscape next = false := by
        have hbackquote : next ≠ '\x60' := by
          rintro rfl
          exact absurd hnext (by decide)
        simp [isDoubleQuoteEscape, hquote, hdollar, hbackquote, ne_backslash_of_isEscapable hnext]
      rw [lex_cons_of_ne (ne_backslash_of_isEscapable hnext), lex, if_pos ⟨rfl, rfl, hany⟩]
      simp [Place.after, Place.ended, Place.afterEscaped, hquote, hfeed, hescape]
  · have hslash : ¬(c = '\\' ∧ (Place.doubleQuoted word).knowsEscapes ∧
        commandEscapes rest.head?) := fun h => hescapes ⟨h.1, h.2.2⟩
    rw [lex_cons hslash]
    simp [Place.after, Place.ended, hc]

/-- A path between double quotes is read as it stands, up to the closing quote. -/
theorem lex_quotedPath {path : List Char} (hquote : '"' ∉ path)
    (hpath : (path ++ ['"']).IsChain SeparatesInQuotes) (word : List Char) :
    lex commandEscapes (.doubleQuoted word) (path ++ ['"']) = some [word ++ path] := by
  induction path generalizing word with
  | nil => simp [lex, Place.after, Place.ended, Place.finish]
  | cons c path ih =>
    have hc : c ≠ '"' := fun hc => hquote (hc ▸ List.mem_cons_self)
    have hquote : '"' ∉ path := fun hmem => hquote (List.mem_cons_of_mem _ hmem)
    obtain ⟨hnext, hpath⟩ := @isChain_cons_append _ c path ['"'] hpath
    rw [List.cons_append, lex_inQuotes hc hnext, ih hquote hpath]
    simp

/-- A command without a number sign is split in one pass, by the lexer of the shell with its rule for
backslashes changed. It has words unless a quote is left open, and backslashes that escape nothing stay. -/
theorem words?_eq_lex :
    (∀ place s, lex shellEscapes place s = shellWords place s) ∧
    (∀ command, '#' ∉ command →
      words? command = lex commandEscapes (.outside none) command ∧
      (words? command = none ↔ openQuote none command ≠ none)) ∧
    (∀ paths last, (∀ path ∈ paths, IsBarePath path ∧ path.getLast? ≠ some '\\') → IsBarePath last →
      words? (paths.flatMap (· ++ [' ']) ++ last) = some (paths ++ [last])) ∧
    (∀ path, '"' ∉ path → '#' ∉ path → (path ++ ['"']).IsChain SeparatesInQuotes →
      words? ('"' :: path ++ ['"']) = some [path]) := by
  have hlex : ∀ {command}, '#' ∉ command →
      words? command = lex commandEscapes (.outside none) command :=
    fun hcommand => shellWords_protect Place.noConfusion hcommand
  refine ⟨lex_shellEscapes, fun command hcommand => ⟨hlex hcommand, ?_⟩,
    fun paths last hpaths hlast => ?_, fun path hquote hcommand hpath => ?_⟩
  · rw [hlex hcommand, lex_eq_none_iff Place.noConfusion hcommand]
    rfl
  · have hcommand : '#' ∉ paths.flatMap (· ++ [' ']) ++ last := by
      simp only [List.mem_append, List.mem_flatMap, List.mem_singleton, not_or, not_exists, not_and]
      exact ⟨fun path hpath => ⟨(hpaths path hpath).1.number_sign_not_mem, by decide⟩,
        hlast.number_sign_not_mem⟩
    rw [hlex hcommand, lex_barePaths hpaths hlast]
  · have hcommand : '#' ∉ '"' :: path ++ ['"'] := by simpa using hcommand
    rw [hlex hcommand, List.cons_append, lex_cons_of_ne (by decide)]
    show (lex commandEscapes (.doubleQuoted []) (path ++ ['"'])).map ([] ++ ·) = _
    rw [lex_quotedPath hquote hpath]
    rfl

/-- Windows paths are the words of a command as they stand, a share and a backslash at the end too; so
is one between double quotes, with a blank after a backslash. A quote that a backslash hides leaves the
quote before it open. -/
theorem words?_eq_lex_of_windowsPaths :
    words? "C:\\tools\\run.cmd \\\\host\\share\\x.py C:\\out\\".toList =
      some ["C:\\tools\\run.cmd".toList, "\\\\host\\share\\x.py".toList, "C:\\out\\".toList] ∧
    words? "\"C:\\Program Files\\ x\\y.py\"".toList = some ["C:\\Program Files\\ x\\y.py".toList] ∧
    words? "run \"C:\\out\\\"".toList = none := by
  obtain ⟨-, hcommand, hbare, hquoted⟩ := words?_eq_lex
  refine ⟨?_, ?_, ?_⟩
  · exact hbare ["C:\\tools\\run.cmd".toList, "\\\\host\\share\\x.py".toList] "C:\\out\\".toList
      (by decide +kernel) (by decide +kernel)
  · exact hquoted "C:\\Program Files\\ x\\y.py".toList (by decide +kernel) (by decide +kernel)
      (by decide +kernel)
  · exact (hcommand _ (by decide +kernel)).2.2 (by decide +kernel)

end Preflight.Command

import Mathlib.Tactic.SplitIfs
import Preflight.Toml.Printer

/-!
# Strings of TOML are read back

Every string is read back from what is written for it, in whichever of the four styles it
is written (`anyString?_writeString`, `lineString?_write`). Between single quotes there are
no escapes, so the choice of style has to keep out what could not be told apart. Over
several lines up to two quotes in a row stand as they are. Whether quotes are such or close
the string is only known once the text after them is seen, so the induction carries them
along in front of the text (`textBody_escapeText`, `literalTextBody_append`).
-/

set_option autoImplicit false

namespace Preflight.Toml

/-! ### Characters -/

/-- An escape by a letter is read as the character that it stands for. -/
theorem escape?_letter {e c : Char} (hwidth : escapeWidth? e = none) (h : letterEscape? e = some c)
    (rest : List Char) : escape? (e :: rest) = some (c, rest) := by
  simp only [escape?, hwidth, h, Option.map_some]

/-- The number of an ASCII character is read from the digits that are written for it. -/
theorem hexNumber?_control : ∀ n < 0x80,
    Text.hexNumber? ['0', '0', hexDigit (n / 16), hexDigit (n % 16)] = some n := by
  decide +kernel

/-- A character is recovered from its number. -/
theorem charOf?_toNat (c : Char) : charOf? c.toNat = some c := by
  have hvalid : c.toNat.isValidChar := c.valid
  rw [charOf?, if_pos hvalid, Char.ofNat_toNat]

/-- What an escape starts with is neither a blank nor the end of a line. -/
theorem continuation?_cons {e : Char} (hblank : isBlank e = false) (hfeed : e ≠ '\n')
    (hreturn : e ≠ '\r') (rest : List Char) : continuation? (e :: rest) = none := by
  have hskip : skipBlanks (e :: rest) = e :: rest := List.dropWhile_cons_of_neg (by simp [hblank])
  rw [continuation?, hskip, newline?.eq_def]
  split <;> grind

/-- A character that needs no escape is a line feed or printable. -/
theorem printable_of_not_needsEscape {c : Char} (h : ¬needsEscape c = true) :
    c ≠ '\r' ∧ (c = '\n' ∨ isPrintable c = true) := by
  simp only [needsEscape, Bool.or_eq_true, Bool.and_eq_true, decide_eq_true_eq, beq_iff_eq,
    bne_iff_ne, not_or] at h
  simp only [isPrintable, Bool.or_eq_true, Bool.and_eq_true, decide_eq_true_eq, beq_iff_eq,
    bne_iff_ne]
  constructor
  · rintro rfl
    exact h.1 (by decide)
  · by_cases hfeed : c = '\n'
    · exact .inl hfeed
    · by_cases htab : c = '\t'
      · exact .inr (.inl htab)
      · have hlow : ¬c.toNat < 0x20 := fun hlow => h.1 ⟨⟨hlow, htab⟩, hfeed⟩
        exact .inr (.inr ⟨Nat.le_of_not_lt hlow, h.2⟩)

/-- A character is written as an escape, from which it is read back, or as itself, if it is printable and
nothing else. -/
theorem escapeChar_cases (c : Char) :
    (∃ e, escapeChar c = '\\' :: e ∧
      ∀ rest, escape? (e ++ rest) = some (c, rest) ∧ continuation? (e ++ rest) = none) ∨
    escapeChar c = [c] ∧ isPrintable c = true ∧ c ≠ '"' ∧ c ≠ '\\' ∧ c ≠ '\r' := by
  have hletter : ∀ e d : Char, c = d → escapeWidth? e = none → letterEscape? e = some d →
      isBlank e = false → e ≠ '\n' → e ≠ '\r' → ∀ rest,
        escape? ([e] ++ rest) = some (c, rest) ∧ continuation? ([e] ++ rest) = none := by
    rintro e _ rfl hwidth he hblank hfeed hreturn rest
    exact ⟨escape?_letter hwidth he rest, continuation?_cons hblank hfeed hreturn rest⟩
  unfold escapeChar
  split_ifs with hb ht hn hf hr hquote hbackslash hcontrol
  · exact .inl ⟨['b'], rfl, hletter 'b' _ hb rfl rfl rfl (by decide) (by decide)⟩
  · exact .inl ⟨['t'], rfl, hletter 't' _ ht rfl rfl rfl (by decide) (by decide)⟩
  · exact .inl ⟨['n'], rfl, hletter 'n' _ hn rfl rfl rfl (by decide) (by decide)⟩
  · exact .inl ⟨['f'], rfl, hletter 'f' _ hf rfl rfl rfl (by decide) (by decide)⟩
  · exact .inl ⟨['r'], rfl, hletter 'r' _ hr rfl rfl rfl (by decide) (by decide)⟩
  · exact .inl ⟨['"'], rfl, hletter '"' _ hquote rfl rfl rfl (by decide) (by decide)⟩
  · exact .inl ⟨['\\'], rfl, hletter '\\' _ hbackslash rfl rfl rfl (by decide) (by decide)⟩
  · have hlt : c.toNat < 0x80 := by
      simp only [needsEscape, Bool.or_eq_true, Bool.and_eq_true, decide_eq_true_eq, beq_iff_eq]
        at hcontrol
      omega
    refine .inl ⟨_, rfl, fun rest => ⟨?_, ?_⟩⟩
    · have hwidth : escapeWidth? 'u' = some 4 := rfl
      simp [escape?, hwidth, hexNumber?_control _ hlt, charOf?_toNat]
    · exact continuation?_cons rfl (by decide) (by decide) _
  · obtain ⟨-, hfeed | hprintable⟩ := printable_of_not_needsEscape hcontrol
    · exact absurd hfeed hn
    · exact .inr ⟨rfl, hprintable, hquote, hbackslash, hr⟩

/-! ### Strings on one line -/

/-- An escape in a basic string is read as its character. -/
theorem basicBody_escape {tail rest : List Char} {c : Char} (h : escape? tail = some (c, rest)) :
    basicBody ('\\' :: tail) = (basicBody rest).cons [c] := by
  rw [basicBody, if_neg (by decide), if_pos rfl]
  split
  · next hnone => cases h.symm.trans hnone
  · next hsome =>
    cases h.symm.trans hsome
    rfl

/-- A printable character in a basic string is read as it stands. -/
theorem basicBody_printable {c : Char} (hquote : c ≠ '"') (hbackslash : c ≠ '\\')
    (hc : isPrintable c = true) (rest : List Char) :
    basicBody (c :: rest) = (basicBody rest).cons [c] := by
  rw [basicBody, if_neg hquote, if_neg hbackslash, if_pos hc]

/-- A basic string is read from what is written for it, up to the closing quote. -/
theorem basicBody_quoted (s rest : List Char) :
    basicBody (s.flatMap escapeChar ++ '"' :: rest) = some (s, rest) := by
  induction s with
  | nil => rw [List.flatMap_nil, List.nil_append, basicBody, if_pos rfl]
  | cons c s ih =>
    rw [List.flatMap_cons, List.append_assoc]
    rcases escapeChar_cases c with ⟨e, he, hread⟩ | ⟨hself, hc, hquote, hbackslash, -⟩
    · rw [he, List.cons_append, basicBody_escape (hread _).1, ih]
      rfl
    · rw [hself, List.singleton_append, basicBody_printable hquote hbackslash hc, ih]
      rfl

/-- A literal string is read as it stands, up to the closing quote. -/
theorem literalBody_append {s : List Char} (hs : ∀ c ∈ s, isPrintable c = true ∧ c ≠ '\'')
    (rest : List Char) : literalBody (s ++ '\'' :: rest) = some (s, rest) := by
  induction s with
  | nil => rw [List.nil_append, literalBody, if_pos rfl]
  | cons c s ih =>
    obtain ⟨hc, hquote⟩ := hs c List.mem_cons_self
    rw [List.cons_append, literalBody, if_neg hquote, if_pos hc,
      ih fun d hd => hs d (List.mem_cons_of_mem c hd)]
    rfl

/-! ### Strings over several lines -/

/-- A text that does not start with a quote. -/
def StartsNot (quote : Char) (s : List Char) : Prop :=
  ∀ c ∈ s.head?, c ≠ quote

/-- A text does not start with a quote if its first character is another one. -/
theorem startsNot_cons {quote c : Char} (h : c ≠ quote) (s : List Char) :
    StartsNot quote (c :: s) := by
  intro d hd
  cases hd
  exact h

/-- One or two quotes before the end of a string belong to it. -/
theorem finalQuotes_replicate {quote : Char} {quotes : Nat} (hquotes : quotes ≤ 2)
    {rest : List Char} (hrest : StartsNot quote rest) :
    finalQuotes quote (List.replicate quotes quote ++ rest) = (List.replicate quotes quote, rest) := by
  have hcons : ∀ c tail, rest = c :: tail → c ≠ quote := fun c tail h => hrest c (by rw [h]; rfl)
  obtain rfl | rfl | rfl : quotes = 0 ∨ quotes = 1 ∨ quotes = 2 := by omega
  · rw [finalQuotes.eq_def]
    split <;> grind
  · rw [finalQuotes.eq_def]
    split <;> grind
  · rw [finalQuotes.eq_def]
    split <;> grind

/-- In a basic text a line feed and a printable character are read as they stand. -/
theorem textBody_self {c : Char} (hbackslash : c ≠ '\\') (hreturn : c ≠ '\r')
    (hc : c = '\n' ∨ isPrintable c = true) {tail : List Char}
    (hquote : c = '"' → ∀ rest, tail ≠ '"' :: '"' :: rest) :
    textBody (c :: tail) = (textBody tail).cons [c] := by
  rw [textBody.eq_def]
  split <;> grind

/-- An escape in a basic text is read as its character, if it does not continue the line. -/
theorem textBody_escape {tail rest : List Char} {c : Char} (hcontinuation : continuation? tail = none)
    (h : escape? tail = some (c, rest)) : textBody ('\\' :: tail) = (textBody rest).cons [c] := by
  rw [textBody.eq_def]
  split <;> grind

/-- One more of a repeated character may stand at either end. -/
theorem replicate_append_cons (n : Nat) (c : Char) (s : List Char) :
    List.replicate n c ++ c :: s = List.replicate (n + 1) c ++ s := by
  rw [List.replicate_succ', List.append_assoc, List.singleton_append]

/-- Up to two quotes before other text belong to the string, if a quote does that does not start three. -/
theorem body_quotes {body : List Char → Reading} {quote : Char}
    (hself : ∀ tail, (∀ rest, tail ≠ quote :: quote :: rest) →
      body (quote :: tail) = (body tail).cons [quote])
    {quotes : Nat} (hquotes : quotes ≤ 2) {s : List Char} (hs : StartsNot quote s) :
    body (List.replicate quotes quote ++ s) = (body s).cons (List.replicate quotes quote) := by
  have hother : ∀ rest, s ≠ quote :: rest := fun rest h => hs quote (by rw [h]; rfl) rfl
  obtain rfl | rfl | rfl : quotes = 0 ∨ quotes = 1 ∨ quotes = 2 := by omega
  · simp [Reading.cons]
  · exact hself s fun rest => hother _
  · have htail : ∀ rest, quote :: s ≠ quote :: quote :: rest := by
      intro rest h
      exact hother rest (List.cons.inj h).2
    rw [List.replicate_succ, List.cons_append, List.replicate_one, List.singleton_append,
      hself _ htail, hself s fun rest => hother _]
    cases body s <;> rfl

/-- Up to two quotes in a basic text are read as they stand. -/
theorem textBody_quotes {quotes : Nat} (hquotes : quotes ≤ 2) {s : List Char}
    (hs : StartsNot '"' s) :
    textBody (List.replicate quotes '"' ++ s) = (textBody s).cons (List.replicate quotes '"') :=
  body_quotes (fun _ h => textBody_self (by decide) (by decide) (.inr rfl) fun _ => h) hquotes hs

/-- Closing quotes may stand before or after others of their kind. -/
theorem replicate_append_close (n : Nat) (c : Char) (s : List Char) :
    List.replicate n c ++ c :: c :: c :: s = c :: c :: c :: (List.replicate n c ++ s) := by
  simp only [replicate_append_cons, List.replicate_succ, List.cons_append]

/-- A string between three double quotes is read back. The quotes that have been written just before it
are not told apart from closing ones yet, so they are read with it. -/
theorem textBody_escapeText {quotes : Nat} (hquotes : quotes ≤ 2) (s : List Char) {rest : List Char}
    (hrest : StartsNot '"' rest) :
    textBody (List.replicate quotes '"' ++ (escapeText quotes s ++ '"' :: '"' :: '"' :: rest)) =
      some (List.replicate quotes '"' ++ s, rest) := by
  induction s generalizing quotes with
  | nil =>
    rw [escapeText, List.nil_append, replicate_append_close, textBody,
      finalQuotes_replicate hquotes hrest, List.append_nil]
  | cons c s ih =>
    have hzero := ih (Nat.zero_le 2)
    rw [List.replicate_zero, List.nil_append, List.nil_append] at hzero
    rw [escapeText]
    split_ifs with hquote hlt hfeed
    · rw [hquote, List.cons_append, replicate_append_cons, replicate_append_cons]
      exact ih hlt
    · rw [hquote, List.cons_append, List.cons_append,
        textBody_quotes hquotes (startsNot_cons (by decide) _),
        textBody_escape (continuation?_cons rfl (by decide) (by decide) _) (escape?_letter rfl rfl _),
        hzero]
      rfl
    · have hself : ∀ tail, textBody ('\n' :: tail) = (textBody tail).cons ['\n'] :=
        fun _ => textBody_self (by decide) (by decide) (.inl rfl) fun h => absurd h (by decide)
      rw [hfeed, List.cons_append, textBody_quotes hquotes (startsNot_cons (by decide) _), hself, hzero]
      rfl
    · rw [List.append_assoc]
      rcases escapeChar_cases c with ⟨e, he, hread⟩ | ⟨hself, hc, -, hbackslash, hreturn⟩
      · obtain ⟨hescape, hcontinuation⟩ := hread (escapeText 0 s ++ '"' :: '"' :: '"' :: rest)
        rw [he, List.cons_append, textBody_quotes hquotes (startsNot_cons (by decide) _),
          textBody_escape hcontinuation hescape, hzero]
        rfl
      · rw [hself, List.singleton_append, textBody_quotes hquotes (startsNot_cons hquote _),
          textBody_self hbackslash hreturn (.inr hc) (fun h => absurd h hquote), hzero]
        rfl

/-- In a literal text a line feed and a printable character are read as they stand. -/
theorem literalTextBody_self {c : Char} (hreturn : c ≠ '\r')
    (hc : c = '\n' ∨ isPrintable c = true) {tail : List Char}
    (hquote : c = '\'' → ∀ rest, tail ≠ '\'' :: '\'' :: rest) :
    literalTextBody (c :: tail) = (literalTextBody tail).cons [c] := by
  rw [literalTextBody.eq_def]
  split <;> grind

/-- Up to two quotes in a literal text are read as they stand. -/
theorem literalTextBody_quotes {quotes : Nat} (hquotes : quotes ≤ 2) {s : List Char}
    (hs : StartsNot '\'' s) :
    literalTextBody (List.replicate quotes '\'' ++ s) =
      (literalTextBody s).cons (List.replicate quotes '\'') :=
  body_quotes (fun _ h => literalTextBody_self (by decide) (.inr rfl) fun _ => h) hquotes hs

/-- The longest run is at least the one that has been begun. -/
theorem le_longestRun (c : Char) (run : Nat) (s : List Char) : run ≤ longestRun c run s := by
  induction s generalizing run with
  | nil => exact Nat.le_refl run
  | cons d s ih =>
    rw [longestRun]
    split
    · exact Nat.le_of_succ_le (ih (run + 1))
    · exact Nat.le_max_left _ _

/-- A string without three single quotes in a row is read back from between three of them. -/
theorem literalTextBody_append {quotes : Nat} {s : List Char} (hrun : longestRun '\'' quotes s ≤ 2)
    (hs : ∀ c ∈ s, c ≠ '\r' ∧ (c = '\n' ∨ isPrintable c = true)) {rest : List Char}
    (hrest : StartsNot '\'' rest) :
    literalTextBody (List.replicate quotes '\'' ++ (s ++ '\'' :: '\'' :: '\'' :: rest)) =
      some (List.replicate quotes '\'' ++ s, rest) := by
  have hquotes : quotes ≤ 2 := Nat.le_trans (le_longestRun _ _ _) hrun
  induction s generalizing quotes with
  | nil =>
    rw [List.nil_append, replicate_append_close, literalTextBody,
      finalQuotes_replicate hquotes hrest, List.append_nil]
  | cons c s ih =>
    obtain ⟨hreturn, hc⟩ := hs c List.mem_cons_self
    have hstring := fun d hd => hs d (List.mem_cons_of_mem c hd)
    rw [longestRun] at hrun
    split_ifs at hrun with hquote
    · rw [hquote, List.cons_append, replicate_append_cons, replicate_append_cons]
      exact ih hrun hstring (Nat.le_trans (le_longestRun _ _ _) hrun)
    · have hzero := ih (Nat.le_trans (Nat.le_max_right _ _) hrun) hstring (Nat.zero_le 2)
      rw [List.replicate_zero, List.nil_append, List.nil_append] at hzero
      rw [List.cons_append, literalTextBody_quotes hquotes (startsNot_cons hquote _),
        literalTextBody_self hreturn hc (fun h => absurd h hquote), hzero]
      rfl

/-! ### Styles -/

/-- The conditions under which a string may be written in a style. -/
def Style.Suits (s : List Char) : Style → Prop
  | .basic => True
  | .literal => s ≠ [] ∧ ∀ c ∈ s, isPrintable c = true ∧ c ≠ '\''
  | .text => True
  | .literalText =>
    longestRun '\'' 0 s ≤ 2 ∧ ∀ c ∈ s, c ≠ '\r' ∧ (c = '\n' ∨ isPrintable c = true)

/-- A character of a text has a run in it. -/
theorem longestRun_pos_of_mem {c : Char} {s : List Char} (h : c ∈ s) (run : Nat) :
    0 < longestRun c run s := by
  induction s generalizing run with
  | nil => cases h
  | cons d s ih =>
    rw [longestRun]
    split_ifs with hd
    · exact Nat.lt_of_lt_of_le (Nat.succ_pos run) (le_longestRun c (run + 1) s)
    · have hmem : c ∈ s := (List.mem_cons.1 h).resolve_left (Ne.symm hd)
      exact Nat.lt_of_lt_of_le (ih hmem 0) (Nat.le_max_right _ _)

/-- The style that is chosen for a text suits it. -/
theorem suits_choose (s : List Char) : (Style.choose s).Suits s := by
  have hescapes : s.any needsEscape = false →
      ∀ c ∈ s, c ≠ '\r' ∧ (c = '\n' ∨ isPrintable c = true) := by
    intro h c hc
    exact printable_of_not_needsEscape (List.any_eq_false.1 h c hc)
  unfold Style.choose
  dsimp only
  split_ifs with hbasic hliteral htext hliteralText hnewline
  · trivial
  · simp only [Bool.and_eq_true, Bool.not_eq_true', beq_iff_eq] at hliteral
    obtain ⟨⟨hnone, hsingle⟩, hfeed⟩ := hliteral
    refine ⟨?_, fun c hc => ⟨?_, ?_⟩⟩
    · rintro rfl
      exact hbasic rfl
    · refine (hescapes hnone c hc).2.resolve_left ?_
      rintro rfl
      rw [List.contains_eq_mem, decide_eq_false_iff_not] at hfeed
      exact hfeed hc
    · rintro rfl
      exact Nat.ne_of_gt (longestRun_pos_of_mem hc 0) hsingle
  · trivial
  · simp only [Bool.and_eq_true, Bool.not_eq_true', decide_eq_true_eq] at hliteralText
    exact ⟨hliteralText.2, hescapes hliteralText.1⟩
  · trivial
  · trivial

/-- The style that is chosen for a key suits it. -/
theorem suits_chooseForKey (s : List Char) : (Style.chooseForKey s).Suits s := by
  unfold Style.chooseForKey
  dsimp only
  split_ifs with hescapes hmarks hsingle
  · trivial
  · trivial
  · refine ⟨?_, fun c hc => ⟨?_, ?_⟩⟩
    · rintro rfl
      cases hmarks
    · have hc' : ¬(needsEscape c || c == '\n') = true := by
        intro h
        exact hescapes (List.any_eq_true.2 ⟨c, hc, h⟩)
      rw [Bool.or_eq_true, not_or, beq_iff_eq] at hc'
      exact (printable_of_not_needsEscape hc'.1).2.resolve_left hc'.2
    · rintro rfl
      exact hsingle (List.contains_iff_mem.2 hc)
  · trivial

/-- A double quote that is not followed by two more begins a basic string. -/
theorem anyString?_basicBody {tail : List Char} (h : ∀ rest, tail ≠ '"' :: '"' :: rest) :
    anyString? ('"' :: tail) = basicBody tail := by
  rw [anyString?.eq_def]
  split <;> grind [lineString?]

/-- A single quote that is not followed by two more begins a literal string. -/
theorem anyString?_literalBody {tail : List Char} (h : ∀ rest, tail ≠ '\'' :: '\'' :: rest) :
    anyString? ('\'' :: tail) = literalBody tail := by
  rw [anyString?.eq_def]
  split <;> grind [lineString?]

/-- The line feed that may follow the opening quotes is the only line ending that is dropped. -/
theorem dropNewline_opening {s body : List Char}
    (h : '\n' ∉ s → ∀ c ∈ body.head?, c ≠ '\n' ∧ c ≠ '\r') :
    dropNewline (opening s ++ body) = body := by
  unfold opening
  split_ifs with hfeed
  · rfl
  · rw [List.contains_iff_mem] at hfeed
    have hnone : newline? body = none := by
      rw [newline?.eq_def]
      have hhead := h hfeed
      split <;> grind
    rw [List.nil_append, dropNewline, hnone]
    rfl

/-- What is written for a basic string does not start with a quote. -/
theorem head?_flatMap_escapeChar (s : List Char) :
    ∀ c ∈ (s.flatMap escapeChar).head?, c ≠ '"' := by
  cases s with
  | nil => simp
  | cons c s =>
    rw [List.flatMap_cons]
    rcases escapeChar_cases c with ⟨e, he, -⟩ | ⟨hself, -, hquote, -⟩
    · rw [he]
      exact startsNot_cons (by decide) _
    · rw [hself]
      exact startsNot_cons hquote _

/-- What is written for a basic text of one line does not start with a line break. -/
theorem head?_escapeText {s : List Char} (hs : '\n' ∉ s) (after : List Char) :
    ∀ c ∈ (escapeText 0 s ++ '"' :: after).head?, c ≠ '\n' ∧ c ≠ '\r' := by
  cases s with
  | nil =>
    intro c hc
    cases hc
    decide
  | cons d s =>
    intro c hc
    rw [escapeText] at hc
    split_ifs at hc with hquote hlt hfeed
    · cases hc
      exact hquote ▸ by decide
    · exact absurd (Nat.zero_lt_two) hlt
    · exact absurd (hfeed ▸ List.mem_cons_self) hs
    · rcases escapeChar_cases d with ⟨e, he, -⟩ | ⟨hself, -, -, -, hreturn⟩
      · rw [he] at hc
        cases hc
        decide
      · rw [hself] at hc
        cases hc
        exact ⟨hfeed, hreturn⟩

/-- In each style a string starts with a quote. -/
theorem exists_write_eq_cons (style : Style) (s : List Char) :
    ∃ c tail, style.write s = c :: tail ∧ (c = '"' ∨ c = '\'') := by
  cases style
  · exact ⟨'"', _, rfl, .inl rfl⟩
  · exact ⟨'\'', _, rfl, .inr rfl⟩
  · exact ⟨'"', _, rfl, .inl rfl⟩
  · exact ⟨'\'', _, rfl, .inr rfl⟩

/-- **Strings are read back.** A string is read back in each style that suits it, unless a quote follows
it. -/
theorem anyString?_write {style : Style} {s : List Char} (h : style.Suits s) {rest : List Char}
    (hdouble : StartsNot '"' rest) (hsingle : StartsNot '\'' rest) :
    anyString? (style.write s ++ rest) = some (s, rest) := by
  cases style with
  | basic =>
    have htail : ∀ after, s.flatMap escapeChar ++ '"' :: rest ≠ '"' :: '"' :: after := by
      intro after heq
      cases hbody : s.flatMap escapeChar with
      | nil =>
        rw [hbody] at heq
        exact hdouble '"' (by rw [(List.cons.inj heq).2]; rfl) rfl
      | cons c body =>
        rw [hbody] at heq
        exact head?_flatMap_escapeChar s c (by rw [hbody]; rfl) (List.cons.inj heq).1
    rw [Style.write, List.cons_append, List.cons_append, List.append_assoc, List.singleton_append,
      anyString?_basicBody htail, basicBody_quoted]
  | literal =>
    obtain ⟨hne, hs⟩ := h
    have htail : ∀ after, s ++ '\'' :: rest ≠ '\'' :: '\'' :: after := by
      intro after heq
      obtain ⟨c, body, rfl⟩ := List.exists_cons_of_ne_nil hne
      exact (hs c List.mem_cons_self).2 (List.cons.inj heq).1
    rw [Style.write, List.cons_append, List.cons_append, List.append_assoc, List.singleton_append,
      anyString?_literalBody htail, literalBody_append hs]
  | text =>
    have htext : Style.text.write s ++ rest = '"' :: '"' :: '"' ::
        (opening s ++ (escapeText 0 s ++ '"' :: '"' :: '"' :: rest)) := by
      simp [Style.write]
    have hread := textBody_escapeText (Nat.zero_le 2) s hdouble
    rw [htext, anyString?, dropNewline_opening fun hs => head?_escapeText hs _]
    exact hread
  | literalText =>
    obtain ⟨hrun, hs⟩ := h
    have htext : Style.literalText.write s ++ rest = '\'' :: '\'' :: '\'' ::
        (opening s ++ (s ++ '\'' :: '\'' :: '\'' :: rest)) := by
      simp [Style.write]
    have hread := literalTextBody_append hrun hs hsingle
    have hhead : '\n' ∉ s →
        ∀ c ∈ (s ++ '\'' :: '\'' :: '\'' :: rest).head?, c ≠ '\n' ∧ c ≠ '\r' := by
      intro hfeed c hc
      cases s with
      | nil =>
        cases hc
        decide
      | cons d s =>
        cases hc
        exact ⟨fun heq => hfeed (heq ▸ List.mem_cons_self), (hs c List.mem_cons_self).1⟩
    rw [htext, anyString?, dropNewline_opening hhead]
    exact hread

/-- A key between quotes is read back. -/
theorem lineString?_chooseForKey (s rest : List Char) :
    lineString? ((Style.chooseForKey s).write s ++ rest) = some (s, rest) := by
  have hsuits := suits_chooseForKey s
  have hline : Style.chooseForKey s = .basic ∨ Style.chooseForKey s = .literal := by
    unfold Style.chooseForKey
    dsimp only
    split_ifs <;> simp
  rcases hline with hstyle | hstyle
  · rw [hstyle, Style.write, List.cons_append, List.cons_append, List.append_assoc,
      List.singleton_append, lineString?, basicBody_quoted]
  · rw [hstyle] at hsuits
    rw [hstyle, Style.write, List.cons_append, List.cons_append, List.append_assoc,
      List.singleton_append, lineString?, literalBody_append hsuits.2]

end Preflight.Toml

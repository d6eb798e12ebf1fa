import Mathlib.Algebra.BigOperators.Group.List.Basic
import Preflight.Proofs.Text.Digits
import Preflight.Proofs.Toml.Strings

/-!
# Keys and values of TOML are read back

A key is read back whether it is written with or without quotes (`keyUpTo?_writeKey`), and
so are natural numbers of 64 bits and lists of strings, on one line or with one string a
line (`value?_writeString`, `value?_writeNat`, `value?_writeStrings`). Each of them is read
up to the text that follows it, as long as this text does not go on with it.
-/

set_option autoImplicit false

namespace Preflight.Toml

open Preflight.Text (Stops takeWhile_append_of_stops dropWhile_append_of_stops decimalValue_toDigits
  isAsciiDigit_of_mem_toDigits length_toDigits_of_head?)

/-! ### Keys -/

/-- A character with which a name may start. -/
def StartsName (c : Char) : Prop :=
  isBareKeyChar c = true ∨ c = '"' ∨ c = '\''

/-- What is written for a name starts as a name does. -/
theorem exists_writeName_eq_cons (name : String) :
    ∃ c tail, writeName name = c :: tail ∧ StartsName c := by
  unfold writeName
  dsimp only
  split_ifs with hbare
  · rw [Bool.and_eq_true, Bool.not_eq_true', List.all_eq_true, List.isEmpty_eq_false_iff] at hbare
    obtain ⟨c, tail, hcons⟩ := List.exists_cons_of_ne_nil hbare.1
    exact ⟨c, tail, hcons, .inl (hbare.2 c (hcons ▸ List.mem_cons_self))⟩
  · obtain ⟨c, tail, hcons, hc⟩ := exists_write_eq_cons (Style.chooseForKey name.toList) name.toList
    exact ⟨c, tail, hcons, .inr hc⟩

/-- What is written for a key starts as a name does. -/
theorem exists_writeKey_eq_cons (path : List String) (name : String) :
    ∃ c tail, writeKey (path ++ [name]) = c :: tail ∧ StartsName c := by
  obtain ⟨first, names, hnames⟩ := List.exists_cons_of_ne_nil (List.append_ne_nil_of_right_ne_nil path
    (List.cons_ne_nil name []))
  obtain ⟨c, tail, hcons, hc⟩ := exists_writeName_eq_cons first
  rw [hnames, writeKey, List.map_cons]
  cases names with
  | nil => exact ⟨c, tail, by simp [hcons], hc⟩
  | cons second names => exact ⟨c, _, by rw [List.map_cons, List.intercalate_cons_cons, hcons]; rfl, hc⟩

/-- A name does not start with a character that is something else at the start of a line. -/
theorem StartsName.ne {c d : Char} (h : StartsName c) (hbare : isBareKeyChar d = false)
    (hdouble : d ≠ '"') (hsingle : d ≠ '\'') : c ≠ d := by
  rintro rfl
  rcases h with h | h | h
  · exact absurd h (by rw [hbare]; decide)
  · exact hdouble h
  · exact hsingle h

/-- No name starts with a blank. -/
theorem StartsName.isBlank_eq_false {c : Char} (h : StartsName c) : isBlank c = false := by
  have hspace : c ≠ ' ' := h.ne rfl (by decide) (by decide)
  have htab : c ≠ '\t' := h.ne rfl (by decide) (by decide)
  simp [isBlank, hspace, htab]

/-- Nothing is skipped ahead of a character that is no blank. -/
theorem skipBlanks_cons {c : Char} (h : isBlank c = false) (s : List Char) :
    skipBlanks (c :: s) = c :: s :=
  List.dropWhile_cons_of_neg (by simp [h])

/-- Nothing is skipped ahead of a name. -/
theorem skipBlanks_writeName (name : String) (rest : List Char) :
    skipBlanks (writeName name ++ rest) = writeName name ++ rest := by
  obtain ⟨c, tail, hcons, hc⟩ := exists_writeName_eq_cons name
  rw [hcons, List.cons_append, skipBlanks_cons hc.isBlank_eq_false]

/-- A name is read back unless the text goes on with it. -/
theorem simpleKey?_writeName (name : String) {rest : List Char} (hrest : Stops isBareKeyChar rest) :
    simpleKey? (writeName name ++ rest) = some (name, rest) := by
  unfold writeName
  dsimp only
  split_ifs with hbare
  · rw [Bool.and_eq_true, Bool.not_eq_true', List.all_eq_true, List.isEmpty_eq_false_iff] at hbare
    obtain ⟨hne, hchars⟩ := hbare
    have htake := takeWhile_append_of_stops hchars hrest
    have hdrop := dropWhile_append_of_stops hchars hrest
    have hempty : name.toList.isEmpty = false := List.isEmpty_eq_false_iff.2 hne
    obtain ⟨c, tail, hcons⟩ := List.exists_cons_of_ne_nil hne
    have hc := hchars c (hcons ▸ List.mem_cons_self)
    have hhead : (name.toList ++ rest).head? = some c := by rw [hcons, List.cons_append, List.head?_cons]
    unfold simpleKey?
    rw [hhead]
    split
    · next heq =>
      cases heq
      cases hc
    · next heq =>
      cases heq
      cases hc
    · simp only [htake, hdrop, hempty, Bool.false_eq_true, if_false, String.ofList_toList]
  · have hread := lineString?_chooseForKey name.toList rest
    obtain ⟨c, tail, hcons, hc⟩ := exists_write_eq_cons (Style.chooseForKey name.toList) name.toList
    have hhead : ((Style.chooseForKey name.toList).write name.toList ++ rest).head? = some c := by
      rw [hcons, List.cons_append, List.head?_cons]
    unfold simpleKey?
    rw [hhead, hread]
    rcases hc with rfl | rfl <;> simp

/-- A key is read back up to the next character that is no blank, which is no dot. -/
theorem keyUpTo?_writeKey (path : List String) (name : String) {parts : Nat}
    (hparts : path.length < parts) {rest : List Char} (hrest : Stops isBareKeyChar rest)
    (hdot : ∀ tail, skipBlanks rest ≠ '.' :: tail) :
    keyUpTo? parts (writeKey (path ++ [name]) ++ rest) = some (⟨path, name⟩, skipBlanks rest) := by
  induction path generalizing parts with
  | nil =>
    obtain ⟨parts, rfl⟩ := Nat.exists_eq_succ_of_ne_zero (Nat.ne_zero_of_lt hparts)
    have hwrite : writeKey ([] ++ [name]) = writeName name := by simp [writeKey]
    rw [hwrite, keyUpTo?, skipBlanks_writeName, simpleKey?_writeName name hrest]
    dsimp only
    split
    · next heq => exact absurd heq (hdot _)
    · rfl
  | cons first path ih =>
    obtain ⟨parts, rfl⟩ := Nat.exists_eq_succ_of_ne_zero (Nat.ne_zero_of_lt hparts)
    have hwrite : writeKey (first :: path ++ [name]) ++ rest =
        writeName first ++ '.' :: (writeKey (path ++ [name]) ++ rest) := by
      rw [writeKey, writeKey, List.cons_append, List.map_cons,
        List.intercalate_cons_of_ne_nil (by simp)]
      simp only [List.append_assoc, List.cons_append, List.nil_append]
    have hstops : Stops isBareKeyChar ('.' :: (writeKey (path ++ [name]) ++ rest)) := by
      intro c hc
      cases hc
      rfl
    rw [hwrite, keyUpTo?, skipBlanks_writeName, simpleKey?_writeName first hstops]
    simp only [skipBlanks_cons (show isBlank '.' = false from rfl),
      ih (Nat.lt_of_succ_lt_succ hparts), Option.map_some]

/-! ### Numbers -/

/-- A number is written with digits alone. -/
theorem not_mem_writeNat {c : Char} (h : Text.isAsciiDigit c = false) (n : Nat) : c ∉ writeNat n := by
  intro hmem
  rw [isAsciiDigit_of_mem_toDigits hmem] at h
  cases h

/-- No digit is a blank. -/
theorem isBlank_eq_false_of_isAsciiDigit {c : Char} (h : Text.isAsciiDigit c = true) :
    isBlank c = false := by
  rw [isBlank, Bool.or_eq_false_iff, beq_eq_false_iff_ne, beq_eq_false_iff_ne]
  constructor <;> (rintro rfl; cases h)

/-- What is written for a number starts with a digit. -/
theorem exists_writeNat_eq_cons (n : Nat) :
    ∃ c tail, writeNat n = c :: tail ∧ Text.isAsciiDigit c = true := by
  obtain ⟨c, tail, hcons⟩ := List.exists_cons_of_ne_nil (Nat.toDigits_ne_nil (n := n) (b := 10))
  exact ⟨c, tail, hcons, isAsciiDigit_of_mem_toDigits (hcons ▸ List.mem_cons_self)⟩

/-- What is written for a number passes for digits. -/
theorem digits?_writeNat (n : Nat) : digits? Text.isAsciiDigit (writeNat n) = some (writeNat n) := by
  have hsplit : (writeNat n).splitOn '_' = [writeNat n] :=
    List.splitOn_eq_singleton (not_mem_writeNat rfl n)
  have hdigits : (writeNat n).all Text.isAsciiDigit = true :=
    List.all_eq_true.2 fun c hc => isAsciiDigit_of_mem_toDigits hc
  have hempty : (writeNat n).isEmpty = false := List.isEmpty_eq_false_iff.2 Nat.toDigits_ne_nil
  simp [digits?, hsplit, hdigits, hempty]

/-- A decimal number has no mark of another base. -/
theorem base?_writeNat (n : Nat) : base? (writeNat n) = none := by
  have hmark : ∀ mark rest, Text.isAsciiDigit mark = false → writeNat n ≠ '0' :: mark :: rest := by
    intro mark rest hdigit heq
    exact not_mem_writeNat hdigit n (heq ▸ List.mem_cons_of_mem _ List.mem_cons_self)
  unfold base?
  split
  · next heq => exact absurd heq (hmark 'x' _ rfl)
  · next heq => exact absurd heq (hmark 'o' _ rfl)
  · next heq => exact absurd heq (hmark 'b' _ rfl)
  · rfl

/-- A number is read back as an integer. -/
theorem integer?_writeNat (n : Nat) : integer? (writeNat n) = some (n : Int) := by
  have hsign : splitSign (writeNat n) = (false, writeNat n) := by
    unfold splitSign
    split
    · next heq => exact absurd (heq ▸ List.mem_cons_self) (not_mem_writeNat (c := '-') rfl n)
    · next heq => exact absurd (heq ▸ List.mem_cons_self) (not_mem_writeNat (c := '+') rfl n)
    · rfl
  have hzero : ¬((writeNat n).head? = some '0' ∧ (writeNat n).length ≠ 1) :=
    fun h => h.2 (length_toDigits_of_head? h.1)
  have hvalue : Text.decimalValue (writeNat n) = n := decimalValue_toDigits n
  simp only [integer?, base?_writeNat, hsign, decimalDigits?, if_neg hzero, digits?_writeNat,
    Option.map_some, Bool.false_eq_true, if_false, hvalue]

/-- A 64-bit number is read back as a scalar. -/
theorem scalar?_writeNat {n : Nat} (h : n < UInt64.size) :
    scalar? (writeNat n) = some (.integer n) := by
  have hword : ∀ word : String, (∃ c ∈ word.toList, Text.isAsciiDigit c = false) →
      writeNat n ≠ word.toList := by
    rintro word ⟨c, hc, hdigit⟩ heq
    exact not_mem_writeNat hdigit n (heq ▸ hc)
  have hfits : fits n = true := by
    have hupper : (n : Int) < Number.twoTo 128 :=
      Int.ofNat_lt.2 (Nat.lt_trans h (by decide))
    have hlower : -(Number.twoTo 127 : Int) ≤ n := by omega
    simp [fits, hupper, hlower]
  have hbase : isBareBase (writeNat n) = false := by rw [isBareBase, base?_writeNat]; rfl
  rw [scalar?, if_neg (hword "true" ⟨'t', by decide, rfl⟩),
    if_neg (hword "false" ⟨'f', by decide, rfl⟩), hbase]
  simp only [Bool.false_eq_true, if_false, integer?_writeNat, hfits, if_true]

/-- A number ends with its line. -/
theorem takeScalar_writeNat (n : Nat) (rest : List Char) :
    takeScalar (writeNat n ++ '\n' :: rest) = (writeNat n, '\n' :: rest) := by
  have htake : ∀ s : List Char, (∀ c ∈ s, Text.isAsciiDigit c = true) →
      takeScalar (s ++ '\n' :: rest) = (s, '\n' :: rest) := by
    intro s hs
    induction s with
    | nil => rfl
    | cons c s ih =>
      have hc := hs c List.mem_cons_self
      have hblank := isBlank_eq_false_of_isAsciiDigit hc
      have hends : endsScalar c = false := by
        rw [endsScalar, List.contains_eq_mem, decide_eq_false_iff_not]
        intro hmem
        have hother : [',', '=', '[', ']', '\x7b', '\x7d', '#', ' ', '\t', '\r', '\n'].all
            (fun d => !Text.isAsciiDigit d) = true := rfl
        have hnot := List.all_eq_true.1 hother c hmem
        rw [hc] at hnot
        cases hnot
      rw [List.cons_append, takeScalar, hblank, hends,
        ih fun d hd => hs d (List.mem_cons_of_mem c hd)]
      rfl
  exact htake _ fun c hc => isAsciiDigit_of_mem_toDigits hc

/-! ### Values -/

/-- A text is read from what is written for it, if no quote follows. -/
theorem value?_writeString (text : String) {fuel depth : Nat} {rest : List Char}
    (hdouble : StartsNot '"' rest) (hsingle : StartsNot '\'' rest) :
    value? (fuel + 1) depth (writeString text ++ rest) = some (.string text, rest) := by
  have hread := anyString?_write (suits_choose text.toList) hdouble hsingle
  obtain ⟨c, tail, hcons, hc⟩ := exists_write_eq_cons (Style.choose text.toList) text.toList
  have hhead : ((Style.choose text.toList).write text.toList ++ rest).head? = some c := by
    rw [hcons, List.cons_append, List.head?_cons]
  unfold writeString
  rw [value?.eq_def]
  dsimp only
  rw [hhead, hread]
  rcases hc with rfl | rfl <;> simp

/-- A 64-bit number is read from what is written for it, up to the end of the line. -/
theorem value?_writeNat {n : Nat} (h : n < UInt64.size) {fuel depth : Nat} (rest : List Char) :
    value? (fuel + 1) depth (writeNat n ++ '\n' :: rest) = some (.integer n, '\n' :: rest) := by
  obtain ⟨c, tail, hcons, hc⟩ := exists_writeNat_eq_cons n
  have hhead : (writeNat n ++ '\n' :: rest).head? = some c := by
    rw [hcons, List.cons_append, List.head?_cons]
  rw [value?.eq_def]
  dsimp only
  rw [hhead]
  split
  · next heq => cases heq; cases hc
  · next heq => cases heq; cases hc
  · next heq => cases heq; cases hc
  · next heq => cases heq; cases hc
  · simp only [takeScalar_writeNat, scalar?_writeNat h, Option.map_some]

/-! ### Lists -/

/-- Parts that are not empty are at least as long together as there are parts. -/
theorem length_le_length_flatMap {α β : Type} {f : α → List β} {l : List α}
    (h : ∀ a ∈ l, f a ≠ []) : l.length ≤ (l.flatMap f).length := by
  rw [List.length_flatMap, ← List.length_map (fun a => (f a).length)]
  refine List.length_le_sum_of_one_le _ fun n hn => ?_
  obtain ⟨a, ha, rfl⟩ := List.mem_map.1 hn
  exact List.length_pos_iff.2 (h a ha)

/-- What is written for texts is at least as long as there are texts. -/
theorem length_le_length_writeStrings (texts : List String) :
    texts.length ≤ (writeStrings texts).length := by
  match texts with
  | [] => exact Nat.zero_le _
  | [_] => simp [writeStrings]
  | text :: second :: texts =>
    have hlines := length_le_length_flatMap (l := text :: second :: texts)
      (f := fun text => [' ', ' ', ' ', ' '] ++ writeString text ++ [',', '\n']) (by simp)
    simp only [writeStrings, List.length_append]
    omega

/-- A string starts with neither a blank nor the end of a line, a comment or a list. -/
theorem exists_writeString_eq_cons (text : String) (rest : List Char) :
    ∃ c tail, writeString text ++ rest = c :: tail ∧ c ≠ ']' ∧
      skipLines false (c :: tail) = some (c :: tail) := by
  obtain ⟨c, tail, hcons, hc⟩ := exists_write_eq_cons (Style.choose text.toList) text.toList
  refine ⟨c, tail ++ rest, by rw [writeString, hcons, List.cons_append], ?_, ?_⟩
  · rcases hc with rfl | rfl <;> decide
  · rcases hc with rfl | rfl <;> rfl

/-- An item is read back, and then what follows it decides how to go on. -/
theorem items?_writeString (text : String) {fuel depth : Nat} {before after : List Char}
    (hbefore : ∀ s, skipLines false (before ++ s) = skipLines false s)
    (hdouble : StartsNot '"' after) (hsingle : StartsNot '\'' after) :
    items? (fuel + 2) depth (before ++ (writeString text ++ after)) =
      match skipLines false after with
      | some (',' :: rest) =>
        (items? (fuel + 1) depth rest).map fun (vs, rest) => (.string text :: vs, rest)
      | some (']' :: rest) => some ([.string text], rest)
      | _ => none := by
  have hread : value? (fuel + 1) depth (writeString text ++ after) = some (.string text, after) :=
    value?_writeString text hdouble hsingle
  obtain ⟨c, tail, hcons, hbracket, hskip⟩ := exists_writeString_eq_cons text after
  rw [hcons] at hread
  rw [items?.eq_def, hcons]
  dsimp only
  rw [hbefore, hskip]
  split
  · next heq => cases heq
  · next heq =>
    cases heq
    exact absurd rfl hbracket
  · next heq =>
    cases heq
    rewrite [hread]
    rfl

/-- The lines of a list of strings, one string a line, are read back up to the bracket after them. -/
theorem items?_lines (texts : List String) {fuel depth : Nat} (hfuel : texts.length < fuel)
    (rest : List Char) :
    items? (fuel + 1) depth ('\n' :: (texts.flatMap
      (fun text => [' ', ' ', ' ', ' '] ++ writeString text ++ [',', '\n']) ++ ']' :: rest)) =
        some (texts.map .string, rest) := by
  induction texts generalizing fuel with
  | nil =>
    rw [items?.eq_def]
    rfl
  | cons text texts ih =>
    obtain ⟨fuel, rfl⟩ := Nat.exists_eq_succ_of_ne_zero (Nat.ne_zero_of_lt hfuel)
    have hrest := ih (Nat.lt_of_succ_lt_succ hfuel)
    have htext : '\n' :: ((text :: texts).flatMap
        (fun text => [' ', ' ', ' ', ' '] ++ writeString text ++ [',', '\n']) ++ ']' :: rest) =
          ['\n', ' ', ' ', ' ', ' '] ++ (writeString text ++ ',' :: '\n' :: (texts.flatMap
            (fun text => [' ', ' ', ' ', ' '] ++ writeString text ++ [',', '\n']) ++ ']' :: rest)) := by
      simp only [List.flatMap_cons, List.append_assoc, List.cons_append, List.nil_append]
    rw [htext, items?_writeString text (fun _ => rfl) (startsNot_cons (by decide) _)
      (startsNot_cons (by decide) _)]
    exact congrArg (Option.map fun (vs, rest) => (Value.string text :: vs, rest)) hrest

/-- The items after a bracket are read as an array. -/
theorem value?_of_items? {fuel depth : Nat} {s rest : List Char} {vs : List Value}
    (h : items? fuel depth s = some (vs, rest)) :
    value? (fuel + 1) (depth + 1) ('[' :: s) = some (.array vs, rest) := by
  rw [value?.eq_def]
  dsimp only [List.head?_cons, List.tail_cons]
  rw [h]
  rfl

/-- A list of strings is read back in each of its layouts. -/
theorem value?_writeStrings (texts : List String) {fuel depth : Nat} (hfuel : texts.length + 3 ≤ fuel)
    (rest : List Char) :
    value? fuel (depth + 1) (writeStrings texts ++ rest) = some (.array (texts.map .string), rest) := by
  obtain ⟨fuel, rfl⟩ : ∃ n, fuel = n + 3 := ⟨fuel - 3, by omega⟩
  match texts, hfuel with
  | [], _ =>
    refine value?_of_items? ?_
    rw [items?.eq_def]
    rfl
  | [text], _ =>
    have htext : writeStrings [text] ++ rest = '[' :: ([] ++ (writeString text ++ ']' :: rest)) := by
      simp [writeStrings]
    rw [htext]
    refine value?_of_items? ?_
    rw [items?_writeString text (fun _ => rfl) (startsNot_cons (by decide) _)
      (startsNot_cons (by decide) _)]
    rfl
  | text :: second :: texts, hfuel =>
    have htext : writeStrings (text :: second :: texts) ++ rest =
        '[' :: '\n' :: ((text :: second :: texts).flatMap
          (fun text => [' ', ' ', ' ', ' '] ++ writeString text ++ [',', '\n']) ++ ']' :: rest) := by
      simp [writeStrings]
    rw [htext]
    exact value?_of_items? (items?_lines _ (by omega) rest)

end Preflight.Toml

import Mathlib.Tactic.SplitIfs
import Preflight.Json.Printer
import Preflight.Json.Reader
import Preflight.Proofs.Text.Digits

/-!
# What is written as JSON is read back

A value without doubles whose integers fit 64 bits and that nests at most 127 deep is read
back from its text, in each layout that has only blanks between the parts
(`Value.ofText_pretty`). Strings may hold any characters: each is read back from the way
it is written between quotes (`stringBody_escapeChar`), whatever follows it.
-/

set_option autoImplicit false

namespace Preflight.Json

open Preflight.Number (twoTo)
open Preflight.Text

/-! ### Strings -/

/-- An escape by a letter is read as the character that it stands for. -/
theorem stringBody_letter {c e : Char} (h : escape? e = some c) (rest : List Char) :
    stringBody ('\\' :: e :: rest) = consReading c (stringBody rest) := by
  have he : e ≠ 'u' := by
    rintro rfl
    cases h
  rw [stringBody.eq_def]
  split <;> grind

/-- An escape by a number is read as its character, unless this is half of a pair. -/
theorem stringBody_number {a b c d : Char} {n : Nat} (h : hexNumber? [a, b, c, d] = some n)
    (hhigh : isHighSurrogate n = false) (hlow : isLowSurrogate n = false) (rest : List Char) :
    stringBody ('\\' :: 'u' :: a :: b :: c :: d :: rest) =
      consReading (Char.ofNat n) (stringBody rest) := by
  rw [stringBody.eq_def]
  split <;> grind

/-- A character that needs no escape is read as it stands. -/
theorem stringBody_raw {c : Char} (hquote : c ≠ '"') (hbackslash : c ≠ '\\')
    (hcontrol : ¬c.toNat < 0x20) (rest : List Char) :
    stringBody (c :: rest) = consReading c (stringBody rest) := by
  rw [stringBody.eq_def]
  split <;> grind

/-- The number of a control character is read from the digits that are written for it. -/
theorem hexNumber?_control : ∀ n < 0x20,
    hexNumber? ['0', '0', hexDigit (n / 16), hexDigit (n % 16)] = some n := by
  decide

/-- A character is read back from what is written for it. -/
theorem stringBody_escapeChar (c : Char) (rest : List Char) :
    stringBody (escapeChar c ++ rest) = consReading c (stringBody rest) := by
  unfold escapeChar
  split_ifs with hquote hbackslash hb hf hn hr ht hcontrol
  · rw [hquote]
    exact stringBody_letter rfl rest
  · rw [hbackslash]
    exact stringBody_letter rfl rest
  · rw [hb]
    exact stringBody_letter rfl rest
  · rw [hf]
    exact stringBody_letter rfl rest
  · rw [hn]
    exact stringBody_letter rfl rest
  · rw [hr]
    exact stringBody_letter rfl rest
  · rw [ht]
    exact stringBody_letter rfl rest
  · have hhigh : isHighSurrogate c.toNat = false := by
      simp only [isHighSurrogate, Bool.and_eq_false_iff, decide_eq_false_iff_not]
      omega
    have hlow : isLowSurrogate c.toNat = false := by
      simp only [isLowSurrogate, Bool.and_eq_false_iff, decide_eq_false_iff_not]
      omega
    have hread := stringBody_number (hexNumber?_control _ hcontrol) hhigh hlow rest
    rwa [Char.ofNat_toNat] at hread
  · exact stringBody_raw hquote hbackslash hcontrol rest

/-- A string is read from what is written for it, up to the closing quote. -/
theorem stringBody_quoted (s rest : List Char) :
    stringBody (s.flatMap escapeChar ++ '"' :: rest) = .ok (s, rest) := by
  induction s with
  | nil => simp [stringBody]
  | cons c s ih =>
    rw [List.flatMap_cons, List.append_assoc, stringBody_escapeChar, ih]
    rfl

/-! ### Integers -/

/-- An integer that is read as such: it has 64 bits, with a sign if it is negative. -/
def IsWord (n : Int) : Prop :=
  -(twoTo 63 : Int) ≤ n ∧ n < UInt64.size

/-- What goes on with a number. -/
def isNumberPart (c : Char) : Bool :=
  isAsciiDigit c || c == '.' || c == 'e' || c == 'E'

/-- Reading more digits makes no number smaller. -/
theorem le_foldl_digits (digits : List Char) (n : Nat) :
    n ≤ digits.foldl (fun n c => 10 * n + digitValue c) n := by
  induction digits generalizing n with
  | nil => exact Nat.le_refl n
  | cons c digits ih =>
    have hrest := ih (10 * n + digitValue c)
    rw [List.foldl_cons]
    omega

/-- Digits whose number is held are all read. -/
theorem readWhole_of_le (digits : List Char) (n : Nat)
    (h : digits.foldl (fun n c => 10 * n + digitValue c) n ≤ Literal.maxSignificand) :
    Literal.readWhole n digits = (digits.foldl (fun n c => 10 * n + digitValue c) n, 0) := by
  induction digits generalizing n with
  | nil => rfl
  | cons c digits ih =>
    have hnext := le_foldl_digits digits (10 * n + digitValue c)
    rw [List.foldl_cons] at h ⊢
    rw [Literal.readWhole, if_pos (Nat.le_trans hnext h), ih _ h]

/-- The digits of a 64-bit number are all read. -/
theorem readWhole_toDigits {n : Nat} (h : n < UInt64.size) :
    Literal.readWhole 0 (Nat.toDigits 10 n) = (n, 0) := by
  have hvalue := decimalValue_toDigits n
  unfold decimalValue at hvalue
  have hread := readWhole_of_le (Nat.toDigits 10 n) 0
  rw [hvalue] at hread
  exact hread (Nat.le_sub_one_of_lt h)

/-- The digits of a number are read as a literal without fraction and exponent. -/
theorem unsignedLiteral_toDigits (negative : Bool) (n : Nat) {rest : List Char}
    (hrest : Stops isNumberPart rest) :
    unsignedLiteral negative (Nat.toDigits 10 n ++ rest) =
      .ok (⟨negative, Nat.toDigits 10 n, none, none⟩, rest) := by
  have hdigits : ∀ c ∈ Nat.toDigits 10 n, isAsciiDigit c = true :=
    fun c hc => isAsciiDigit_of_mem_toDigits hc
  have hstops : Stops isAsciiDigit rest := by
    intro c hc
    have hpart := hrest c hc
    simp only [isNumberPart, Bool.or_eq_false_iff] at hpart
    exact hpart.1.1.1
  have hfraction : fraction rest = .ok (none, rest) := by
    unfold fraction
    split
    · exact absurd (hrest '.' rfl) (by decide)
    · rfl
  have hexponent : exponent rest = .ok (none, rest) := by
    unfold exponent
    cases rest with
    | nil => rfl
    | cons c rest =>
      have hpart := hrest c rfl
      simp only [isNumberPart, Bool.or_eq_false_iff] at hpart
      simp [hpart.1.2, hpart.2]
  have hzero : ((Nat.toDigits 10 n).length != 1 && (Nat.toDigits 10 n).head? == some '0') = false := by
    rw [Bool.and_eq_false_iff, bne_eq_false_iff_eq, beq_eq_false_iff_ne]
    by_cases hhead : (Nat.toDigits 10 n).head? = some '0'
    · exact .inl (length_toDigits_of_head? hhead)
    · exact .inr hhead
  have hempty : (Nat.toDigits 10 n).isEmpty = false := by
    rw [List.isEmpty_eq_false_iff]
    exact Nat.toDigits_ne_nil
  unfold unsignedLiteral
  simp only [takeWhile_append_of_stops hdigits hstops, dropWhile_append_of_stops hdigits hstops,
    hempty, hzero, Bool.or_self, Bool.false_eq_true, if_false, hfraction, hexponent, bind, Except.bind,
    pure, Except.pure]

/-- The digits of a 64-bit number stand for it. -/
theorem value?_toDigits {n : Nat} (h : n < UInt64.size) :
    (Literal.mk false (Nat.toDigits 10 n) none none).value? = some (.integer n) := by
  simp [Literal.value?, readWhole_toDigits h]

/-- The digits after a sign stand for the negative number, down to the least 64-bit integer. -/
theorem value?_negative {n : Nat} (hpos : n ≠ 0) (h : n ≤ twoTo 63) :
    (Literal.mk true (Nat.toDigits 10 n) none none).value? = some (.integer (-n)) := by
  have hlt : n < UInt64.size := Nat.lt_of_le_of_lt h (by decide)
  simp [Literal.value?, readWhole_toDigits hlt, hpos, h]

/-- A number that is not negative is written as its digits. -/
theorem toList_text_ofNat (n : Nat) :
    (Number.integer (n : Int)).text.toList = Nat.toDigits 10 n := by
  have htext : (Number.integer (n : Int)).text = toString n := rfl
  rw [htext, Nat.toString_eq_ofList_toDigits, String.toList_ofList]

/-- A negative number is written as a sign and the digits of its opposite. -/
theorem toList_text_negSucc (n : Nat) :
    (Number.integer (.negSucc n)).text.toList = '-' :: Nat.toDigits 10 (n + 1) := by
  have htext : (Number.integer (.negSucc n)).text = "-" ++ toString (n + 1) := rfl
  rw [htext, Nat.toString_eq_ofList_toDigits, String.toList_append, String.toList_ofList,
    String.toList_ofList]
  rfl

/-- What is written of a number starts with a digit. -/
theorem toDigits_append_eq_cons (n : Nat) (rest : List Char) :
    ∃ c tail, Nat.toDigits 10 n ++ rest = c :: tail ∧ isAsciiDigit c = true := by
  obtain ⟨c, tail, hcons⟩ := List.exists_cons_of_ne_nil (Nat.toDigits_ne_nil (n := n) (b := 10))
  refine ⟨c, tail ++ rest, by rw [hcons, List.cons_append], ?_⟩
  exact isAsciiDigit_of_mem_toDigits (hcons ▸ List.mem_cons_self)

/-- An integer is read back unless what follows goes on with it. -/
theorem number_text {n : Int} (h : IsWord n) {rest : List Char} (hrest : Stops isNumberPart rest) :
    number ((Number.integer n).text.toList ++ rest) = .ok (.integer n, rest) := by
  obtain ⟨hlower, hupper⟩ := h
  cases n with
  | ofNat n =>
    have hn : n < UInt64.size := Int.ofNat_lt.1 hupper
    have hread := unsignedLiteral_toDigits false n hrest
    have htext : (Number.integer (.ofNat n)).text.toList = Nat.toDigits 10 n := toList_text_ofNat n
    rw [htext]
    obtain ⟨c, tail, hcons, hdigit⟩ := toDigits_append_eq_cons n rest
    rw [hcons] at hread ⊢
    have hminus : c ≠ '-' := by
      rintro rfl
      cases hdigit
    unfold number
    split
    · next heq =>
      cases heq
      exact absurd rfl hminus
    · simp only [hread, bind, Except.bind, value?_toDigits hn]
      rfl
  | negSucc n =>
    have hn : n + 1 ≤ twoTo 63 := by
      have hle : ((n + 1 : Nat) : Int) ≤ twoTo 63 := by omega
      exact Int.ofNat_le.1 hle
    rw [toList_text_negSucc, List.cons_append]
    simp only [number, unsignedLiteral_toDigits true (n + 1) hrest, bind, Except.bind,
      value?_negative (Nat.succ_ne_zero n) hn]
    rfl

/-! ### Values -/

/-- A value that can be read: its integers have 64 bits, it has no doubles and nests at most so deep. -/
inductive Value.Fits : Nat → Value → Prop
  | null {depth : Nat} : Fits depth .null
  | bool {depth : Nat} (b : Bool) : Fits depth (.bool b)
  | integer {depth : Nat} {n : Int} : IsWord n → Fits depth (.number (.integer n))
  | string {depth : Nat} (text : String) : Fits depth (.string text)
  | array {depth : Nat} {vs : List Value} : (∀ v ∈ vs, Fits depth v) → Fits (depth + 1) (.array vs)
  | object {depth : Nat} {ms : List (String × Value)} : (∀ m ∈ ms, Fits depth m.2) →
    Fits (depth + 1) (.object ms)

/-- A layout that has nothing but blanks between the parts, a colon apart. -/
structure Layout.IsBlank (layout : Layout) : Prop where
  line : ∀ depth, ∀ c ∈ layout.line depth, isJsonBlank c = true
  colon : ∃ blanks, layout.colon = ':' :: blanks ∧ ∀ c ∈ blanks, isJsonBlank c = true

/-- The indented layout puts only blanks between the parts of a value. -/
theorem isBlank_indented : Layout.indented.IsBlank where
  line := by
    intro depth c hc
    rcases List.mem_cons.1 hc with rfl | hc
    · rfl
    · rw [List.eq_of_mem_replicate hc]
      rfl
  colon := ⟨[' '], rfl, by simp [isJsonBlank]⟩

/-- What follows a value: nothing, a blank, a comma or a closing bracket. -/
def EndsValue (rest : List Char) : Prop :=
  ∀ c ∈ rest.head?, isJsonBlank c = true ∨ c = ',' ∨ c = ']' ∨ c = '\x7d'

/-- What may follow a value is no part of a number. -/
theorem EndsValue.stops {rest : List Char} (h : EndsValue rest) : Stops isNumberPart rest := by
  intro c hc
  rcases h c hc with hblank | rfl | rfl | rfl
  · simp only [isJsonBlank, Bool.or_eq_true, beq_iff_eq] at hblank
    rcases hblank with ((rfl | rfl) | rfl) | rfl <;> rfl
  · rfl
  · rfl
  · rfl

/-- Blanks may stand before what may follow a value. -/
theorem endsValue_append {blanks : List Char} (hblanks : ∀ c ∈ blanks, isJsonBlank c = true)
    {rest : List Char} (h : EndsValue rest) : EndsValue (blanks ++ rest) := by
  cases blanks with
  | nil => exact h
  | cons b blanks =>
    intro c hc
    cases hc
    exact .inl (hblanks b List.mem_cons_self)

/-- Blanks are skipped up to the first character that is none. -/
theorem skipBlank_append {blanks : List Char} (hblanks : ∀ c ∈ blanks, isJsonBlank c = true)
    {c : Char} (hc : isJsonBlank c = false) (rest : List Char) :
    skipBlank (blanks ++ c :: rest) = c :: rest :=
  dropWhile_append_of_stops hblanks fun _ h => by cases h; exact hc

variable {layout : Layout}

/-- What is written for a number starts with a sign or a digit. -/
theorem exists_text_eq_cons (n : Int) :
    ∃ c tail, (Number.integer n).text.toList = c :: tail ∧ isJsonBlank c = false ∧
      (c = '-' ∨ isAsciiDigit c = true) := by
  cases n with
  | ofNat n =>
    obtain ⟨c, tail, hcons, hdigit⟩ := toDigits_append_eq_cons n []
    have htext : (Number.integer (.ofNat n)).text.toList = Nat.toDigits 10 n := toList_text_ofNat n
    refine ⟨c, tail, by rw [htext, ← hcons, List.append_nil], ?_, .inr hdigit⟩
    simp only [isJsonBlank, Bool.or_eq_false_iff, beq_eq_false_iff_ne]
    refine ⟨⟨⟨?_, ?_⟩, ?_⟩, ?_⟩ <;> (rintro rfl; cases hdigit)
  | negSucc n => exact ⟨'-', _, toList_text_negSucc n, rfl, .inl rfl⟩

/-- A value is written with a first character that is no blank and does not close anything. -/
theorem exists_write_eq_cons {v : Value} {bound : Nat} (hv : v.Fits bound) (layout : Layout)
    (depth : Nat) :
    ∃ c tail, v.write layout depth = c :: tail ∧ isJsonBlank c = false ∧ c ≠ ']' := by
  cases hv with
  | null => exact ⟨'n', _, by rw [Value.write]; rfl, rfl, by decide⟩
  | bool b => cases b <;> exact ⟨_, _, by rw [Value.write]; rfl, rfl, by decide⟩
  | @integer _ n _ =>
    obtain ⟨c, tail, hcons, hc, hpart⟩ := exists_text_eq_cons n
    refine ⟨c, tail, by rw [Value.write, hcons], hc, ?_⟩
    rintro rfl
    revert hpart
    decide
  | string text => exact ⟨'"', _, by rw [Value.write]; rfl, rfl, by decide⟩
  | @array _ vs _ =>
    cases vs with
    | nil => exact ⟨'[', [']'], by rw [Value.write], rfl, by decide⟩
    | cons v vs => exact ⟨'[', _, by rw [Value.write]; rfl, rfl, by decide⟩
  | @object _ ms _ =>
    cases ms with
    | nil => exact ⟨'\x7b', ['\x7d'], by rw [Value.write], rfl, by decide⟩
    | cons m ms => exact ⟨'\x7b', _, by rw [Value.write]; rfl, rfl, by decide⟩

/-- Fuel for the text of a value is not used up at its start. -/
theorem Value.Fits.exists_fuel_eq_succ {v : Value} {bound : Nat} (hv : v.Fits bound)
    {depth fuel : Nat} (h : 2 * (v.write layout depth).length ≤ fuel) : ∃ n, fuel = n + 1 := by
  obtain ⟨c, tail, hcons, -⟩ := exists_write_eq_cons hv layout depth
  rw [hcons, List.length_cons] at h
  exact ⟨fuel - 1, by omega⟩

/-- The value is read back from its text, with blanks before it and its end after it. -/
def Value.IsReadBack (layout : Layout) (bound : Nat) (v : Value) : Prop :=
  ∀ fuel depth blanks rest, (∀ c ∈ blanks, isJsonBlank c = true) → EndsValue rest →
    2 * (v.write layout depth).length ≤ fuel →
    value fuel bound (blanks ++ (v.write layout depth ++ rest)) = .ok (v, rest)

/-- A value that starts with a sign or a digit is read as a number. -/
theorem value_number {fuel bound : Nat} {c : Char} {s tail rest : List Char} {n : Number}
    (hskip : skipBlank s = c :: tail) (hc : c = '-' ∨ isAsciiDigit c = true)
    (hread : number (c :: tail) = .ok (n, rest)) :
    value (fuel + 1) bound s = .ok (.number n, rest) := by
  have hother : c ≠ 'n' ∧ c ≠ 't' ∧ c ≠ 'f' ∧ c ≠ '"' ∧ c ≠ '[' ∧ c ≠ '\x7b' := by
    rcases hc with rfl | hc
    · decide
    · refine ⟨?_, ?_, ?_, ?_, ?_, ?_⟩ <;> (rintro rfl; cases hc)
  rw [value, hskip]
  split <;> grind

/-! ### Items and members -/

/-- A closing bracket may follow a value. -/
theorem endsValue_close {close : List Char} (hclose : ∀ c ∈ close, isJsonBlank c = true) {c : Char}
    (hc : c = ']' ∨ c = '\x7d') (rest : List Char) : EndsValue (close ++ c :: rest) := by
  refine endsValue_append hclose fun b hb => ?_
  cases hb
  exact .inr (.inr hc)

/-- A comma may follow a value. -/
theorem endsValue_comma (rest : List Char) : EndsValue (',' :: rest) := by
  intro c hc
  cases hc
  exact .inr (.inl rfl)

/-- A comma is not skipped. -/
theorem skipBlank_comma (rest : List Char) : skipBlank (',' :: rest) = ',' :: rest := rfl

section

variable {bound : Nat} {close : List Char}

/-- An item is read back, and then what follows it decides how to go on. -/
theorem items_succ {depth : Nat} {v : Value} (hv : v.IsReadBack layout bound) {fuel : Nat}
    (hfuel : 2 * (v.write layout depth).length ≤ fuel) {blanks : List Char}
    (hblanks : ∀ c ∈ blanks, isJsonBlank c = true) {after : List Char} (hafter : EndsValue after) :
    items (fuel + 1) bound (blanks ++ (v.write layout depth ++ after)) =
      match skipBlank after with
      | ',' :: rest =>
        match items fuel bound rest with
        | .ok (vs, rest) => .ok (v :: vs, rest)
        | .error failure => .error failure
      | ']' :: rest => .ok ([v], rest)
      | [] => fail .endOfText []
      | rest => fail .expectedCommaOrEnd rest := by
  rewrite [items, hv fuel depth blanks after hblanks hafter hfuel]
  rfl

/-- The items that are written for an array are read back, up to its closing bracket. -/
theorem items_write (hlayout : layout.IsBlank) (depth : Nat) {v : Value} {vs : List Value}
    (hv : v.IsReadBack layout bound) (hvs : ∀ v ∈ vs, v.IsReadBack layout bound) {fuel : Nat}
    {blanks : List Char} (hblanks : ∀ c ∈ blanks, isJsonBlank c = true)
    (hclose : ∀ c ∈ close, isJsonBlank c = true) (rest : List Char)
    (hfuel : 2 * ((v.write layout depth).length + (Value.writeItems layout depth vs).length) ≤ fuel) :
    items (fuel + 1) bound (blanks ++ (v.write layout depth ++
      (Value.writeItems layout depth vs ++ (close ++ ']' :: rest)))) = .ok (v :: vs, rest) := by
  induction vs generalizing v fuel blanks with
  | nil =>
    have hend := endsValue_close hclose (.inl rfl) rest
    rw [Value.writeItems, List.nil_append, items_succ hv (by omega) hblanks hend,
      skipBlank_append hclose rfl]
    rfl
  | cons w vs ih =>
    have htext : Value.writeItems layout depth (w :: vs) ++ (close ++ ']' :: rest) =
        ',' :: (layout.line depth ++ (w.write layout depth ++
          (Value.writeItems layout depth vs ++ (close ++ ']' :: rest)))) := by
      rw [Value.writeItems]
      simp only [List.append_assoc, List.cons_append]
    have hlength : (w.write layout depth).length + (Value.writeItems layout depth vs).length <
        (Value.writeItems layout depth (w :: vs)).length := by
      simp only [Value.writeItems, List.length_append, List.length_cons]
      omega
    obtain ⟨fuel, rfl⟩ : ∃ n, fuel = n + 1 := ⟨fuel - 1, by omega⟩
    have hw := hvs w List.mem_cons_self
    have hrest := ih hw (fun v hv => hvs v (List.mem_cons_of_mem _ hv)) (hlayout.line depth)
      (show _ ≤ fuel by omega)
    rw [htext, items_succ hv (by omega) hblanks (endsValue_comma _), skipBlank_comma]
    simp only [hrest]

/-- A member is read back, and then what follows it decides how to go on. -/
theorem members_succ (hlayout : layout.IsBlank) {depth : Nat} (name : String) {v : Value}
    (hv : v.IsReadBack layout bound) {fuel : Nat} (hfuel : 2 * (v.write layout depth).length ≤ fuel)
    {blanks : List Char} (hblanks : ∀ c ∈ blanks, isJsonBlank c = true) {after : List Char}
    (hafter : EndsValue after) :
    members (fuel + 1) bound
        (blanks ++ (quoted name ++ (layout.colon ++ (v.write layout depth ++ after)))) =
      match skipBlank after with
      | ',' :: rest =>
        match members fuel bound rest with
        | .ok (ms, rest) => .ok ((name, v) :: ms, rest)
        | .error failure => .error failure
      | '\x7d' :: rest => .ok ([(name, v)], rest)
      | [] => fail .endOfText []
      | rest => fail .expectedCommaOrEnd rest := by
  obtain ⟨colonBlanks, hcolon, hcolonBlanks⟩ := hlayout.colon
  have hread := hv fuel depth colonBlanks after hcolonBlanks hafter hfuel
  have hname : quoted name ++ (layout.colon ++ (v.write layout depth ++ after)) =
      '"' :: (name.toList.flatMap escapeChar ++
        '"' :: (':' :: (colonBlanks ++ (v.write layout depth ++ after)))) := by
    rw [quoted, hcolon]
    simp only [List.append_assoc, List.cons_append, List.nil_append]
  have hskip : ∀ rest, skipBlank (':' :: rest) = ':' :: rest := fun _ => rfl
  rw [members, hname, skipBlank_append hblanks rfl]
  simp only [stringBody_quoted, hskip, hread]
  rewrite [String.ofList_toList]
  rfl

/-- The members that are written for an object are read back, up to its closing brace. -/
theorem members_write (hlayout : layout.IsBlank) (depth : Nat) (name : String) {v : Value}
    {ms : List (String × Value)} (hv : v.IsReadBack layout bound)
    (hms : ∀ m ∈ ms, m.2.IsReadBack layout bound) {fuel : Nat}
    {blanks : List Char} (hblanks : ∀ c ∈ blanks, isJsonBlank c = true)
    (hclose : ∀ c ∈ close, isJsonBlank c = true) (rest : List Char)
    (hfuel : 2 * ((v.write layout depth).length + (Value.writeMembers layout depth ms).length) ≤ fuel) :
    members (fuel + 1) bound (blanks ++ (quoted name ++ (layout.colon ++ (v.write layout depth ++
      (Value.writeMembers layout depth ms ++ (close ++ '\x7d' :: rest)))))) =
        .ok ((name, v) :: ms, rest) := by
  induction ms generalizing name v fuel blanks with
  | nil =>
    have hend := endsValue_close hclose (.inr rfl) rest
    rw [Value.writeMembers, List.nil_append, members_succ hlayout name hv (by omega) hblanks hend,
      skipBlank_append hclose rfl]
    rfl
  | cons m ms ih =>
    obtain ⟨name', w⟩ := m
    have htext : Value.writeMembers layout depth ((name', w) :: ms) ++ (close ++ '\x7d' :: rest) =
        ',' :: (layout.line depth ++ (quoted name' ++ (layout.colon ++ (w.write layout depth ++
          (Value.writeMembers layout depth ms ++ (close ++ '\x7d' :: rest)))))) := by
      rw [Value.writeMembers]
      simp only [List.append_assoc, List.cons_append]
    have hlength : (w.write layout depth).length + (Value.writeMembers layout depth ms).length <
        (Value.writeMembers layout depth ((name', w) :: ms)).length := by
      simp only [Value.writeMembers, List.length_append, List.length_cons]
      omega
    obtain ⟨fuel, rfl⟩ : ∃ n, fuel = n + 1 := ⟨fuel - 1, by omega⟩
    have hw : w.IsReadBack layout bound := hms (name', w) List.mem_cons_self
    have hrest := ih name' hw (fun m hm => hms m (List.mem_cons_of_mem _ hm)) (hlayout.line depth)
      (show _ ≤ fuel by omega)
    rw [htext, members_succ hlayout name hv (by omega) hblanks (endsValue_comma _), skipBlank_comma]
    simp only [hrest]

end

/-! ### All values -/

/-- An array is read back if its items are. -/
theorem isReadBack_array (hlayout : layout.IsBlank) {bound : Nat} {vs : List Value}
    (hfits : ∀ v ∈ vs, v.Fits bound) (hvs : ∀ v ∈ vs, v.IsReadBack layout bound) :
    (Value.array vs).IsReadBack layout (bound + 1) := by
  intro fuel depth blanks rest hblanks hrest hfuel
  cases vs with
  | nil =>
    obtain ⟨fuel, rfl⟩ := (Value.Fits.array hfits).exists_fuel_eq_succ hfuel
    rw [value, Value.write, List.cons_append, skipBlank_append hblanks rfl]
    rfl
  | cons v vs =>
    have htext : (Value.array (v :: vs)).write layout depth ++ rest =
        '[' :: (layout.line (depth + 1) ++ (v.write layout (depth + 1) ++
          (Value.writeItems layout (depth + 1) vs ++ (layout.line depth ++ ']' :: rest)))) := by
      rw [Value.write]
      simp only [List.append_assoc, List.cons_append, List.nil_append]
    have hlength : (v.write layout (depth + 1)).length +
        (Value.writeItems layout (depth + 1) vs).length + 2 ≤
          ((Value.array (v :: vs)).write layout depth).length := by
      rw [Value.write]
      simp only [List.length_append, List.length_cons, List.length_nil]
      omega
    obtain ⟨fuel, rfl⟩ : ∃ n, fuel = n + 2 := ⟨fuel - 2, by omega⟩
    have hread := items_write hlayout (depth + 1) (hvs v List.mem_cons_self)
      (fun v hv => hvs v (List.mem_cons_of_mem _ hv)) (List.forall_mem_nil _) (hlayout.line depth)
      rest (show _ ≤ fuel by omega)
    obtain ⟨c, tail, hcons, hc, hclose⟩ :=
      exists_write_eq_cons (hfits v List.mem_cons_self) layout (depth + 1)
    rw [List.nil_append, hcons, List.cons_append] at hread
    rw [value, htext, skipBlank_append hblanks rfl, hcons, List.cons_append]
    simp only [skipBlank_append (hlayout.line (depth + 1)) hc]
    split
    · next heq =>
      cases heq
      exact absurd rfl hclose
    · rw [hread]

/-- An object is read back if the values of its members are. -/
theorem isReadBack_object (hlayout : layout.IsBlank) {bound : Nat} {ms : List (String × Value)}
    (hfits : ∀ m ∈ ms, m.2.Fits bound) (hms : ∀ m ∈ ms, m.2.IsReadBack layout bound) :
    (Value.object ms).IsReadBack layout (bound + 1) := by
  intro fuel depth blanks rest hblanks hrest hfuel
  cases ms with
  | nil =>
    obtain ⟨fuel, rfl⟩ := (Value.Fits.object hfits).exists_fuel_eq_succ hfuel
    rw [value, Value.write, List.cons_append, skipBlank_append hblanks rfl]
    rfl
  | cons m ms =>
    obtain ⟨name, v⟩ := m
    have htext : (Value.object ((name, v) :: ms)).write layout depth ++ rest =
        '\x7b' :: (layout.line (depth + 1) ++ (quoted name ++ (layout.colon ++
          (v.write layout (depth + 1) ++ (Value.writeMembers layout (depth + 1) ms ++
            (layout.line depth ++ '\x7d' :: rest)))))) := by
      rw [Value.write]
      simp only [List.append_assoc, List.cons_append, List.nil_append]
    have hlength : (v.write layout (depth + 1)).length +
        (Value.writeMembers layout (depth + 1) ms).length + 2 ≤
          ((Value.object ((name, v) :: ms)).write layout depth).length := by
      rw [Value.write]
      simp only [List.length_append, List.length_cons, List.length_nil]
      omega
    obtain ⟨fuel, rfl⟩ : ∃ n, fuel = n + 2 := ⟨fuel - 2, by omega⟩
    have hv : v.IsReadBack layout bound := hms (name, v) List.mem_cons_self
    have hread := members_write hlayout (depth + 1) name hv
      (fun m hm => hms m (List.mem_cons_of_mem _ hm)) (List.forall_mem_nil _) (hlayout.line depth)
      rest (show _ ≤ fuel by omega)
    have hquote : isJsonBlank '"' = false := rfl
    rw [List.nil_append, quoted, List.cons_append, List.cons_append] at hread
    rw [value, htext, skipBlank_append hblanks rfl, quoted, List.cons_append, List.cons_append]
    simp only [skipBlank_append (hlayout.line (depth + 1)) hquote]
    split
    · next heq => simp at heq
    · rw [hread]

/-- A value that fits is read back. -/
theorem isReadBack_of_fits (hlayout : layout.IsBlank) {bound : Nat} {v : Value} (h : v.Fits bound) :
    v.IsReadBack layout bound := by
  have hfuel : ∀ {fuel depth : Nat}, 2 * (v.write layout depth).length ≤ fuel → ∃ n, fuel = n + 1 :=
    h.exists_fuel_eq_succ
  induction h with
  | null =>
    intro fuel depth blanks rest hblanks _ hlength
    obtain ⟨fuel, rfl⟩ := hfuel hlength
    have htext : Value.null.write layout depth = ['n', 'u', 'l', 'l'] := by rw [Value.write]; rfl
    rw [value, htext, List.cons_append, skipBlank_append hblanks rfl]
    rfl
  | bool b =>
    intro fuel depth blanks rest hblanks _ hlength
    obtain ⟨fuel, rfl⟩ := hfuel hlength
    cases b with
    | false =>
      have htext : (Value.bool false).write layout depth = ['f', 'a', 'l', 's', 'e'] := by
        rw [Value.write]
        rfl
      rw [value, htext, List.cons_append, skipBlank_append hblanks rfl]
      rfl
    | true =>
      have htext : (Value.bool true).write layout depth = ['t', 'r', 'u', 'e'] := by
        rw [Value.write]
        rfl
      rw [value, htext, List.cons_append, skipBlank_append hblanks rfl]
      rfl
  | @integer bound n hn =>
    intro fuel depth blanks rest hblanks hrest hlength
    obtain ⟨fuel, rfl⟩ := hfuel hlength
    have hread := number_text hn hrest.stops
    obtain ⟨c, tail, hcons, hc, hpart⟩ := exists_text_eq_cons n
    rw [hcons, List.cons_append] at hread
    rw [Value.write, hcons, List.cons_append]
    exact value_number (skipBlank_append hblanks hc _) hpart hread
  | string text =>
    intro fuel depth blanks rest hblanks _ hlength
    obtain ⟨fuel, rfl⟩ := hfuel hlength
    rw [value, Value.write, quoted, List.cons_append, List.cons_append,
      skipBlank_append hblanks rfl]
    simp only [List.append_assoc, List.cons_append, List.nil_append, stringBody_quoted,
      String.ofList_toList]
  | array hvs ih =>
    exact isReadBack_array hlayout hvs fun v hv => ih v hv (hvs v hv).exists_fuel_eq_succ
  | object hms ih =>
    exact isReadBack_object hlayout hms fun m hm => ih m hm (hms m hm).exists_fuel_eq_succ

/-- **What is written is read back.** A value that fits is what its text denotes. -/
theorem ofText_pretty {v : Value} (h : v.Fits maxDepth) : Value.ofText v.pretty = .ok v := by
  have hread := isReadBack_of_fits isBlank_indented h (2 * (v.write .indented 0).length + 1) 0 [] []
    (List.forall_mem_nil _) (fun c hc => by cases hc) (Nat.le_succ _)
  rw [List.nil_append, List.append_nil] at hread
  simp only [Value.ofText, Value.pretty, String.toList_ofList, hread]
  rfl

end Preflight.Json

import Preflight.Toml.Draft
import Preflight.Toml.Quoted
import Preflight.Toml.Scalar

/-!
# Reading keys and values of TOML

Each function takes what is left of a text and returns what it read with what
follows it. Arrays and inline tables may nest 80 deep, go over several lines and
have a comma after their last item. A key has 80 parts at most, all in one line.
-/

set_option autoImplicit false

namespace Preflight.Toml

/-! ### Keys -/

/-- A character of which keys without quotes are made. -/
def isBareKeyChar (c : Char) : Bool :=
  Text.isAsciiLetter c || Text.isAsciiDigit c || c == '-' || c == '_'

/-- One part of a key. -/
def simpleKey? (s : List Char) : Option (String × List Char) :=
  match s.head? with
  | some '"' => (lineString? s).map fun (cs, rest) => (String.ofList cs, rest)
  | some '\'' => (lineString? s).map fun (cs, rest) => (String.ofList cs, rest)
  | _ =>
    let bare := s.takeWhile isBareKeyChar
    if bare.isEmpty then none else some (String.ofList bare, s.dropWhile isBareKeyChar)

/-- The parts of a key: the last one and those before it. -/
structure Key where
  path : List String
  name : String
deriving Repr, DecidableEq

/-- How many parts a key may have. -/
def maxParts : Nat := 80

/-- A key of at least one part and at most as many as given, with dots between them and blanks around them. -/
def keyUpTo? : (parts : Nat) → List Char → Option (Key × List Char)
  | 0, _ => none
  | parts + 1, s =>
    match simpleKey? (skipBlanks s) with
    | none => none
    | some (name, rest) =>
      match skipBlanks rest with
      | '.' :: rest => (keyUpTo? parts rest).map fun (key, rest) => (⟨name :: key.path, key.name⟩, rest)
      | rest => some (⟨[], name⟩, rest)

/-- A key and what follows it. -/
def key? (s : List Char) : Option (Key × List Char) :=
  keyUpTo? maxParts s

/-! ### Values -/

/-- How deep arrays and inline tables may nest. -/
def maxDepth : Nat := 80

mutual

/-- A value. Arrays and inline tables may still nest `depth` deep; `fuel` bounds the steps left and is
never exhausted when it exceeds twice the length of the text. -/
def value? : (fuel depth : Nat) → List Char → Option (Value × List Char)
  | 0, _, _ => none
  | fuel + 1, depth, s =>
    match s.head? with
    | some '"' => (anyString? s).map fun (cs, rest) => (.string (String.ofList cs), rest)
    | some '\'' => (anyString? s).map fun (cs, rest) => (.string (String.ofList cs), rest)
    | some '[' =>
      match depth with
      | 0 => none
      | depth + 1 => (items? fuel depth s.tail).map fun (vs, rest) => (.array vs, rest)
    | some '\x7b' =>
      match depth with
      | 0 => none
      | depth + 1 =>
        (members? fuel depth [] s.tail).map fun (entries, rest) =>
          (.table (Draft.toEntries entries), rest)
    | _ =>
      let (literal, rest) := takeScalar s
      (scalar? literal).map (·, rest)

/-- The items of an array up to its closing bracket. -/
def items? : (fuel depth : Nat) → List Char → Option (List Value × List Char)
  | 0, _, _ => none
  | fuel + 1, depth, s =>
    match skipLines false s with
    | none => none
    | some (']' :: rest) => some ([], rest)
    | some s =>
      match value? fuel depth s with
      | none => none
      | some (v, rest) =>
        match skipLines false rest with
        | some (',' :: rest) => (items? fuel depth rest).map fun (vs, rest) => (v :: vs, rest)
        | some (']' :: rest) => some ([v], rest)
        | _ => none

/-- The members of an inline table up to its closing brace, after those that have been read. Lines may end
anywhere but inside a key. -/
def members? : (fuel depth : Nat) → Draft.Entries → List Char → Option (Draft.Entries × List Char)
  | 0, _, _, _ => none
  | fuel + 1, depth, entries, s =>
    match skipLines false s with
    | none => none
    | some ('\x7d' :: rest) => some (entries, rest)
    | some s =>
      match key? s with
      | none => none
      | some (key, rest) =>
        match skipLines false rest with
        | some ('=' :: rest) =>
          match skipLines false rest with
          | none => none
          | some rest =>
            match value? fuel depth rest with
            | none => none
            | some (v, rest) =>
              match Draft.bindKey key.path key.name v .header entries, skipLines false rest with
              | some (_, entries), some (',' :: rest) => members? fuel depth entries rest
              | some (_, entries), some ('\x7d' :: rest) => some (entries, rest)
              | _, _ => none
        | _ => none

end

end Preflight.Toml

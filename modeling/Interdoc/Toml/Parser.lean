import Interdoc.Toml.Scalar
import Interdoc.Toml.Section

/-!
# Reading TOML

A text consists of lines with a key and a value, and of headers that begin a section.  Arrays and
long strings may extend over several lines, inline tables may not.  `parse?` reads a whole text, or
nothing if the text breaks a rule somewhere.
-/

namespace Interdoc.Toml

/-! ### Blanks -/

/-- The text without the spaces and tabs at its start. -/
def skipSpaces (s : List Char) : List Char :=
  s.dropWhile isSpace

/-- What follows a comment, if one is in front; it reaches to the end of the line. -/
def skipComment (s : List Char) : List Char :=
  match s with
  | '#' :: rest => rest.dropWhile isTextChar
  | _ => s

/-- What follows the end of a line, after spaces and a comment. -/
def restOfLine? (s : List Char) : Option (List Char) :=
  match skipComment (skipSpaces s) with
  | [] => some []
  | s => afterLineEnd? s

/-- The text without blanks, comments and line ends at its start, given the number of lines to
skip. -/
def skipLines : (fuel : Nat) → List Char → List Char
  | 0, s => s
  | fuel + 1, s =>
    let s := skipComment (skipSpaces s)
    match afterLineEnd? s with
    | some rest => skipLines fuel rest
    | none => s

/-! ### Keys -/

/-- Whether a character may stand in a name without quotes. -/
def isNameChar (c : Char) : Bool :=
  c.isAlphanum || c == '_' || c == '-'

/-- A name, with or without quotes. -/
def name? (s : List Char) : Option (String × List Char) :=
  let name := s.takeWhile isNameChar
  if name.isEmpty then string? s else some (String.ofList name, s.drop name.length)

/-- The names of a key with dots, given the number of characters to read. -/
def namesAux? : (fuel : Nat) → List Char → Option (List String × List Char)
  | 0, _ => none
  | fuel + 1, s => do
    let (name, rest) ← name? (skipSpaces s)
    match skipSpaces rest with
    | '.' :: rest => (namesAux? fuel rest).map fun (names, rest) => (name :: names, rest)
    | rest => some ([name], rest)

/-- A key with dots: the names before the last one, the last one, and what follows. -/
def key? (s : List Char) : Option (List String × String × List Char) := do
  let (names, rest) ← namesAux? (s.length + 1) s
  let last ← names.getLast?
  return (names.dropLast, last, rest)

/-! ### Values -/

mutual

/-- A value, and what follows, given the number of characters to read. -/
def value? : (fuel : Nat) → List Char → Option (Value × List Char)
  | 0, _ => none
  | fuel + 1, s =>
    match s with
    | '[' :: rest => (items? fuel rest).map fun (items, rest) => (.array items, rest)
    | '\x7b' :: rest => do
      let (pairs, rest) ← match skipSpaces rest with
        | '\x7d' :: rest => some ([], rest)
        | rest => pairs? fuel rest
      let entries ← Entries.addPairs? pairs []
      return (.table (membersOf entries), rest)
    | _ => scalar? s

/-- The items of an array and its end, and what follows. -/
def items? : (fuel : Nat) → List Char → Option (List Value × List Char)
  | 0, _ => none
  | fuel + 1, s =>
    match skipLines s.length s with
    | ']' :: rest => some ([], rest)
    | s => do
      let (v, rest) ← value? fuel s
      match skipLines rest.length rest with
      | ',' :: rest => (items? fuel rest).map fun (items, rest) => (v :: items, rest)
      | ']' :: rest => some ([v], rest)
      | _ => none

/-- The pairs of an inline table, at least one, and its end, and what follows. -/
def pairs? : (fuel : Nat) → List Char → Option (List Pair × List Char)
  | 0, _ => none
  | fuel + 1, s => do
    let (path, name, rest) ← key? s
    match rest with
    | '=' :: rest =>
      let (v, rest) ← value? fuel (skipSpaces rest)
      let pair : Pair := ⟨path, name, v⟩
      match skipSpaces rest with
      | ',' :: rest => (pairs? fuel rest).map fun (pairs, rest) => (pair :: pairs, rest)
      | '\x7d' :: rest => some ([pair], rest)
      | _ => none
    | _ => none

end

/-! ### Texts -/

/-- The header of a section, after its first bracket, and what follows it in the text. -/
def header? (s : List Char) : Option (Header × List Char) := do
  let (isItem, s) := match s with
    | '[' :: rest => (true, rest)
    | _ => (false, s)
  let (path, name, rest) ← key? s
  let rest ← match isItem, rest with
    | false, ']' :: rest => some rest
    | true, ']' :: ']' :: rest => some rest
    | _, _ => none
  return (⟨path, name, isItem⟩, ← restOfLine? rest)

/-- The pairs up to the next header, and the text from there on, given the number of lines to read.
-/
def sectionPairs? : (fuel : Nat) → List Char → Option (List Pair × List Char)
  | 0, s => some ([], s)
  | fuel + 1, s =>
    match skipLines s.length s with
    | [] => some ([], [])
    | '[' :: rest => some ([], '[' :: rest)
    | s => do
      let (path, name, rest) ← key? s
      match rest with
      | '=' :: rest =>
        let (v, rest) ← value? (rest.length + 1) (skipSpaces rest)
        let rest ← restOfLine? rest
        let (pairs, rest) ← sectionPairs? fuel rest
        return (⟨path, name, v⟩ :: pairs, rest)
      | _ => none

/-- The entries after the sections of a text, given the number of sections to read. -/
def sections? : (fuel : Nat) → Entries → List Char → Option Entries
  | 0, entries, _ => some entries
  | fuel + 1, entries, s =>
    match s with
    | '[' :: rest => do
      let (header, rest) ← header? rest
      let (pairs, rest) ← sectionPairs? rest.length rest
      sections? fuel (← entries.addSection? header pairs) rest
    | _ => some entries

/-- The table of a text. -/
def parse? (s : List Char) : Option Value := do
  let s := match s with
    | '\ufeff' :: rest => rest
    | _ => s
  let (pairs, rest) ← sectionPairs? (s.length + 1) s
  let entries ← sections? rest.length (← Entries.addPairs? pairs []) rest
  return .table (membersOf entries)

end Interdoc.Toml

import Interdoc.Html.Entity
import Interdoc.Text.Punctuation

/-!
# Escapes and character references

A backslash before ASCII punctuation makes it ordinary.  A reference stands for a character by its
number, in at most seven decimal or hexadecimal digits, or for one or two characters by their HTML
name.  Unlike in HTML it always ends with a semicolon.
-/

namespace Interdoc.Markdown

/-! ### References -/

/-- The character with a number.  Surrogates, the first code point after them and numbers beyond the
last code point have none. -/
def charOfNumber (n : Nat) : Char :=
  if n = 0 || (0xd800 ≤ n && n ≤ 0xe000) || 0x110000 ≤ n then '\ufffd' else Char.ofNat n

/-- The value of digits in a base. -/
def numberOf (base : Nat) (digits : List Char) : Nat :=
  digits.foldl
    (fun n c =>
      base * n + if c.isDigit then c.toNat - '0'.toNat else c.toLower.toNat - 'a'.toNat + 10) 0

/-- Whether a character is a hexadecimal digit. -/
def isHexDigit (c : Char) : Bool :=
  c.isDigit || ('a' ≤ c.toLower && c.toLower ≤ 'f')

/-- A reference by number, after the number sign: its character, and what follows it. -/
def numberReference? (s : List Char) : Option (List Char × List Char) :=
  let (base, isDigit, s) := match s with
    | 'x' :: s | 'X' :: s => (16, isHexDigit, s)
    | s => (10, Char.isDigit, s)
  let digits := s.takeWhile isDigit
  match s.dropWhile isDigit with
  | ';' :: rest =>
    if 1 ≤ digits.length && digits.length ≤ 7 then
      some ([charOfNumber (numberOf base digits)], rest)
    else none
  | _ => none

/-- A reference by name: its characters, and what follows it.  The name has at least two characters
and is found within the next thirty-two. -/
def nameReference? (s : List Char) : Option (List Char × List Char) :=
  let name := s.takeWhile fun c => c != ';' && c != ' '
  match s.drop name.length with
  | ';' :: rest =>
    if 2 ≤ name.length && name.length < 32 then
      (Html.entities.find? fun e => e.name == name).map fun e => (e.characters, rest)
    else none
  | _ => none

/-- A reference, after the ampersand: its characters, and what follows it. -/
def reference? (s : List Char) : Option (List Char × List Char) :=
  match s with
  | '#' :: digits => numberReference? digits
  | _ => nameReference? s

/-- A text with its references resolved.  The number counts the characters that still belong to the
reference resolved last. -/
def resolveReferencesAux : (skip : Nat) → (s : List Char) → List Char
  | _, [] => []
  | skip + 1, _ :: s => resolveReferencesAux skip s
  | 0, c :: s =>
    if c = '&' then
      match reference? s with
      | some (cs, rest) => cs ++ resolveReferencesAux (s.length - rest.length) s
      | none => c :: resolveReferencesAux 0 s
    else c :: resolveReferencesAux 0 s

/-- A text with its references resolved. -/
def resolveReferences (s : List Char) : List Char :=
  resolveReferencesAux 0 s

/-! ### Backslashes -/

/-- A text without the backslashes before ASCII punctuation. -/
def unescape : List Char → List Char
  | [] => []
  | [c] => [c]
  | c :: d :: s =>
    if c = '\\' && Text.isAsciiPunctuation d then d :: unescape s else c :: unescape (d :: s)

/-- The target that is meant by the text of a link target. -/
def targetOf (s : List Char) : List Char :=
  unescape (resolveReferences (Text.trimLayout s))

end Interdoc.Markdown

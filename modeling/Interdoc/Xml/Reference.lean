import Interdoc.Text.Utf8
import Interdoc.Xml.Fault

/-!
# References

`Xml.unescape?` replaces the five predefined entities and the character references of a text.  Every
ampersand has to begin a reference: the semicolon must come before the next ampersand.
-/

namespace Interdoc.Xml

/-! ### Character references -/

/-- The value of a digit in a base of at most sixteen. -/
def digitValue? (base : Nat) (c : Char) : Option Nat :=
  let d :=
    if c.isDigit then c.toNat - 48
    else if 'a' ≤ c && c ≤ 'f' then c.toNat - 87
    else if 'A' ≤ c && c ≤ 'F' then c.toNat - 55
    else base
  if d < base then some d else none

/-- A number of at most 32 bits in a base, after the digits read so far. -/
def numberFrom (base : Nat) (value : Nat) : List Char → Except ReferenceFault Nat
  | [] => .ok value
  | c :: s =>
    match digitValue? base c with
    | none => .error .badDigit
    | some d =>
      if value * base + d < Nat.pow 2 32 then numberFrom base (value * base + d) s
      else .error .tooLarge

/-- An unsigned number of at most 32 bits in a base. -/
def number (base : Nat) : List Char → Except ReferenceFault Nat
  | [] => .error .noDigits
  | '+' :: _ => .error .signed
  | '-' :: _ => .error .signed
  | c :: s => numberFrom base 0 (c :: s)

/-- Whether a number is that of a character. -/
def isScalar (code : Nat) : Bool :=
  code < 0xd800 || (0xe000 ≤ code && code < 0x110000)

/-- The character of a reference that reads so after its number sign. -/
def charOfReference (s : List Char) : Except ReferenceFault Char :=
  let code := match s with
    | 'x' :: digits => number 16 digits
    | digits => number 10 digits
  match code with
  | .error e => .error e
  | .ok 0 => .error (.notPermitted 0)
  | .ok code => if isScalar code then .ok (Char.ofNat code) else .error (.notScalar code)

/-! ### Entities -/

/-- The character of a predefined entity. -/
def entity? (name : List Char) : Option Char :=
  if name = "lt".toList then some '<'
  else if name = "gt".toList then some '>'
  else if name = "amp".toList then some '&'
  else if name = "apos".toList then some '\''
  else if name = "quot".toList then some '"'
  else none

/-- The character of the reference with the given text, which stands at a position. -/
def reference (position : Nat) (name : List Char) : Except Fault Char :=
  match name with
  | '#' :: s => (charOfReference s).mapError .badReference
  | _ =>
    match entity? name with
    | some c => .ok c
    | none => .error (.unknownEntity position (position + Utf8.size name) name)

/-- A text with its references replaced, which begins at a position.  The first number counts the
characters of a reference that are still to be passed over. -/
def unescapeFrom : (position skip : Nat) → List Char → Except Fault (List Char)
  | _, _, [] => .ok []
  | position, skip + 1, c :: s => unescapeFrom (position + Utf8.charSize c) skip s
  | position, 0, c :: s =>
    if c = '&' then
      let name := s.takeWhile fun a => a != '&' && a != ';'
      match s.drop name.length with
      | ';' :: _ =>
        match reference (position + 1) name with
        | .error e => .error e
        | .ok a => (unescapeFrom (position + 1) (name.length + 1) s).map (a :: ·)
      | _ => .error (.unterminated position (position + 1 + Utf8.size s))
    else (unescapeFrom (position + Utf8.charSize c) 0 s).map (c :: ·)

/-- A text with its references replaced. -/
def unescape? (s : List Char) : Except Fault (List Char) :=
  unescapeFrom 0 0 s

end Interdoc.Xml

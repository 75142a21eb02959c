import Interdoc.Html.Entity

/-!
# Character references

A reference stands for a character by its number, or for one or two characters by their name. 
Numbers that name no character stand for the replacement character, and numbers of control
characters for the characters that they had in Windows code page 1252.

`reference?` reads one reference and says how many characters it takes; `resolve` replaces all
references of a text.
-/

namespace Interdoc.Html

/-- The character that stands in for one that cannot be. -/
def replacement : Char := '\ufffd'

/-- Code page 1252 from `0x80` to `0x9f`, as numbers; zero where the number keeps its meaning. -/
def controlReplacements : List Nat :=
  [0x20ac, 0, 0x201a, 0x0192, 0x201e, 0x2026, 0x2020, 0x2021, 0x02c6, 0x2030, 0x0160, 0x2039,
   0x0152, 0, 0x017d, 0, 0, 0x2018, 0x2019, 0x201c, 0x201d, 0x2022, 0x2013, 0x2014, 0x02dc, 0x2122,
   0x0161, 0x203a, 0x0153, 0, 0x017e, 0x0178]

/-- The character that a number stands for. -/
def charOfNumber (n : Nat) : Char :=
  if n = 0 || n > 0x10ffff || (0xd800 ≤ n && n ≤ 0xdfff) then replacement
  else if 0x80 ≤ n && n ≤ 0x9f then
    match controlReplacements[n - 0x80]? with
    | some (m + 1) => Char.ofNat (m + 1)
    | _ => Char.ofNat n
  else Char.ofNat n

/-- Whether a character is a hexadecimal digit. -/
def isHexDigit (c : Char) : Bool :=
  c.isDigit || ('a' ≤ c && c ≤ 'f') || ('A' ≤ c && c ≤ 'F')

/-- The number that digits write in a base. -/
def numberOf (base : Nat) (digits : List Char) : Nat :=
  digits.foldl
    (fun n c =>
      base * n + if c.isDigit then c.toNat - '0'.toNat else c.toLower.toNat - 'a'.toNat + 10) 0

/-- A reference by number, after the number sign: the character and how many characters were read.
-/
def numberReference? (s : List Char) : Option (List Char × Nat) :=
  let (marker, base, isDigit) := match s with
    | 'x' :: _ | 'X' :: _ => (1, 16, isHexDigit)
    | _ => (0, 10, Char.isDigit)
  let digits := (s.drop marker).takeWhile isDigit
  let after := (s.drop marker).dropWhile isDigit
  if digits.isEmpty then none
  else some ([charOfNumber (numberOf base digits)],
    marker + digits.length + if after.head? = some ';' then 1 else 0)

/-- The entities whose name the text starts with, each with its characters and how much of the text
its name takes with the semicolon, if the reference can be written so. -/
def entitiesAt (s : List Char) : List (List Char × Nat) :=
  entities.filterMap fun e =>
    match Text.stripPrefix? e.name s with
    | none => none
    | some after =>
      if after.head? = some ';' then some (e.characters, e.name.length + 1)
      else if e.isOld then some (e.characters, e.name.length)
      else none

/-- A reference by name: of the entities that fit, the one with the longest name. -/
def nameReference? (s : List Char) : Option (List Char × Nat) :=
  (entitiesAt s).foldl
    (fun best found =>
      match best with
      | some (_, length) => if length < found.2 then some found else best
      | none => some found)
    none

/-- The reference after an ampersand: its characters, and how many characters after the ampersand it
takes.  In the value of an attribute a name without semicolon is no reference if an equals sign, a
letter or a digit follows. -/
def reference? (inAttribute : Bool) (s : List Char) : Option (List Char × Nat) :=
  match s with
  | '#' :: rest => (numberReference? rest).map fun (cs, n) => (cs, n + 1)
  | _ =>
    match nameReference? s with
    | none => none
    | some (cs, n) =>
      let isEnded := s[n - 1]? = some ';'
      let goesOn := match s[n]? with
        | some c => c == '=' || c.isAlphanum
        | none => false
      if inAttribute && !isEnded && goesOn then none else some (cs, n)

/-- A text with its references replaced.  The number counts the characters that still belong to the
reference replaced last. -/
def resolveAux (inAttribute : Bool) : (skip : Nat) → (s : List Char) → List Char
  | _, [] => []
  | skip + 1, _ :: s => resolveAux inAttribute skip s
  | 0, c :: s =>
    if c = '&' then
      match reference? inAttribute s with
      | some (cs, n) => cs ++ resolveAux inAttribute n s
      | none => c :: resolveAux inAttribute 0 s
    else c :: resolveAux inAttribute 0 s

/-- A text with its references replaced. -/
def resolve (inAttribute : Bool) (s : List Char) : List Char :=
  resolveAux inAttribute 0 s

end Interdoc.Html

import Interdoc.Json.Basic

/-!
# JSON texts

`Json.compact` prints a value without blanks, `Json.pretty` with two spaces of indentation per
level and one item or member on a line.  Both print the members in the order in which they stand.

A floating point number is printed with its shortest digits: positionally, with at least one digit
after the point, from `10 ^ -5` up to `10 ^ 16`, and otherwise with an exponent that carries its
sign.  In a string the quote, the backslash and the characters below the space are escaped, five of
them by a letter and the rest by four hexadecimal digits.
-/

namespace Interdoc.Json

/-! ### Strings -/

/-- A hexadecimal digit in lower case. -/
def hexDigit (n : Nat) : Char :=
  if n < 10 then Char.ofNat (48 + n) else Char.ofNat (87 + n)

/-- A character inside a string. -/
def escapeChar (c : Char) : List Char :=
  if c = '"' then ['\\', '"']
  else if c = '\\' then ['\\', '\\']
  else if c = '\x08' then ['\\', 'b']
  else if c = '\x0c' then ['\\', 'f']
  else if c = '\n' then ['\\', 'n']
  else if c = '\r' then ['\\', 'r']
  else if c = '\t' then ['\\', 't']
  else if c.toNat < 0x20 then
    ['\\', 'u', '0', '0', hexDigit (c.toNat / 16), hexDigit (c.toNat % 16)]
  else [c]

/-- A string with its quotes. -/
def quoted (s : String) : List Char :=
  '"' :: s.toList.flatMap escapeChar ++ ['"']

/-! ### Numbers -/

/-- Digits with the point after the first `n` of them, padded with zeros on either side. -/
def positional (digits : List Char) (n : Int) : List Char :=
  if n ≤ 0 then '0' :: '.' :: (List.replicate n.natAbs '0' ++ digits)
  else
    let k := n.toNat
    let whole := digits.take k ++ List.replicate (k - digits.length) '0'
    let rest := digits.drop k
    whole ++ '.' :: (if rest.isEmpty then ['0'] else rest)

/-- Digits with the point after the first one, and an exponent. -/
def exponential (digits : List Char) (e : Int) : List Char :=
  let rest := digits.drop 1
  digits.take 1 ++ (if rest.isEmpty then [] else '.' :: rest) ++
    'e' :: (if e < 0 then '-' else '+') :: (toString e.natAbs).toList

/-- A floating point number. -/
def realText (x : Binary64) : List Char :=
  (if x.negative then ['-'] else []) ++
    if x.significand = 0 then "0.0".toList
    else
      let (k, e) := x.shortest
      let digits := (toString k).toList
      let point : Int := digits.length + e
      if -5 < point && point ≤ 16 then positional digits point
      else exponential digits (point - 1)

/-! ### Values -/

mutual

/-- A value without blanks. -/
def compact : Json → List Char
  | .null => "null".toList
  | .bool b => (if b then "true" else "false").toList
  | .integer n => (toString n).toList
  | .real x => realText x
  | .string s => quoted s
  | .array [] => ['[', ']']
  | .array (v :: rest) => '[' :: compact v ++ compactItems rest
  | .object [] => ['\x7b', '\x7d']
  | .object ((name, v) :: rest) =>
    '\x7b' :: quoted name ++ ':' :: compact v ++ compactMembers rest

/-- The items after the first one, and the end of the array. -/
def compactItems : List Json → List Char
  | [] => [']']
  | v :: rest => ',' :: compact v ++ compactItems rest

/-- The members after the first one, and the end of the object. -/
def compactMembers : List (String × Json) → List Char
  | [] => ['\x7d']
  | (name, v) :: rest => ',' :: quoted name ++ ':' :: compact v ++ compactMembers rest

end

/-- A line break and the indentation of a level. -/
def newline (level : Nat) : List Char :=
  '\n' :: List.replicate (2 * level) ' '

mutual

/-- A value that begins on a line of the given level. -/
def prettyAt (level : Nat) : Json → List Char
  | .null => "null".toList
  | .bool b => (if b then "true" else "false").toList
  | .integer n => (toString n).toList
  | .real x => realText x
  | .string s => quoted s
  | .array [] => ['[', ']']
  | .array (v :: rest) =>
    '[' :: newline (level + 1) ++ prettyAt (level + 1) v ++ prettyItems level rest
  | .object [] => ['\x7b', '\x7d']
  | .object ((name, v) :: rest) =>
    '\x7b' :: newline (level + 1) ++ quoted name ++ ':' :: ' ' :: prettyAt (level + 1) v ++
      prettyMembers level rest

/-- The items after the first one, and the end of the array. -/
def prettyItems (level : Nat) : List Json → List Char
  | [] => newline level ++ [']']
  | v :: rest =>
    ',' :: newline (level + 1) ++ prettyAt (level + 1) v ++ prettyItems level rest

/-- The members after the first one, and the end of the object. -/
def prettyMembers (level : Nat) : List (String × Json) → List Char
  | [] => newline level ++ ['\x7d']
  | (name, v) :: rest =>
    ',' :: newline (level + 1) ++ quoted name ++ ':' :: ' ' :: prettyAt (level + 1) v ++
      prettyMembers level rest

end

/-- A value over several lines. -/
def pretty (v : Json) : List Char :=
  prettyAt 0 v

end Interdoc.Json

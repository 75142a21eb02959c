import Interdoc.Json.Basic
import Interdoc.Text.Utf8

/-!
# Reading JSON texts

`Json.parse?` reads one value with blanks around it, or says what is wrong and where.  A position is
a line and a column, the column being the number of octets read on that line; some faults are
reported where reading stands and others one octet further on, at the character that was looked at
but not read.  At most 127 arrays and objects may be nested.

Reading is a function on a `Cursor`, the rest of the text with the position reached.  Every reader
returns the cursor after what it read; lists of items and members are bounded by the length of the
rest, and nesting by the depth that is left, so that all of it is structural recursion.
-/

namespace Interdoc.Json

/-- What can be wrong with a JSON text. -/
inductive SyntaxFault where
  | eofInList | eofInObject | eofInString | eofInValue
  | expectedColon | expectedListCommaOrEnd | expectedObjectCommaOrEnd
  | expectedIdent | expectedValue
  | invalidEscape | invalidNumber | numberOutOfRange
  | controlCharacter | keyNotString
  | loneSurrogate | unexpectedEndOfEscape
  | trailingComma | trailingCharacters | tooDeep
  deriving DecidableEq, Repr

/-- A fault in words. -/
def SyntaxFault.message : SyntaxFault → String
  | .eofInList => "EOF while parsing a list"
  | .eofInObject => "EOF while parsing an object"
  | .eofInString => "EOF while parsing a string"
  | .eofInValue => "EOF while parsing a value"
  | .expectedColon => "expected \x60:\x60"
  | .expectedListCommaOrEnd => "expected \x60,\x60 or \x60]\x60"
  | .expectedObjectCommaOrEnd => "expected \x60,\x60 or \x60\x7d\x60"
  | .expectedIdent => "expected ident"
  | .expectedValue => "expected value"
  | .invalidEscape => "invalid escape"
  | .invalidNumber => "invalid number"
  | .numberOutOfRange => "number out of range"
  | .controlCharacter => "control character (\\u0000-\\u001F) found while parsing a string"
  | .keyNotString => "key must be a string"
  | .loneSurrogate => "lone leading surrogate in hex escape"
  | .unexpectedEndOfEscape => "unexpected end of hex escape"
  | .trailingComma => "trailing comma"
  | .trailingCharacters => "trailing characters"
  | .tooDeep => "recursion limit exceeded"

/-- A fault with its place. -/
structure SyntaxError where
  fault : SyntaxFault
  line : Nat
  column : Nat
  deriving DecidableEq, Repr

/-- A fault and its place in words. -/
def SyntaxError.message (e : SyntaxError) : String :=
  e.fault.message ++ " at line " ++ toString e.line ++ " column " ++ toString e.column

/-- The rest of a text, and the position at which it begins. -/
structure Cursor where
  rest : List Char
  line : Nat
  column : Nat

namespace Cursor

/-- The start of a text. -/
def start (s : List Char) : Cursor := ⟨s, 1, 0⟩

/-- The next character, if there is one. -/
def peek? (c : Cursor) : Option Char := c.rest.head?

/-- The cursor after the next character. -/
def advance (c : Cursor) : Cursor :=
  match c.rest with
  | [] => c
  | '\n' :: rest => ⟨rest, c.line + 1, 0⟩
  | a :: rest => ⟨rest, c.line, c.column + Utf8.charSize a⟩

/-- A fault where reading stands. -/
def here {α : Type} (c : Cursor) (fault : SyntaxFault) : Except SyntaxError α :=
  .error ⟨fault, c.line, c.column⟩

/-- A fault at the next character, one octet further on. -/
def ahead {α : Type} (c : Cursor) (fault : SyntaxFault) : Except SyntaxError α :=
  match c.rest with
  | [] => .error ⟨fault, c.line, c.column⟩
  | '\n' :: _ => .error ⟨fault, c.line + 1, 0⟩
  | _ :: _ => .error ⟨fault, c.line, c.column + 1⟩

end Cursor

/-- A reader: from a cursor to a value and the cursor after it, or a fault. -/
abbrev Reader (α : Type) := Cursor → Except SyntaxError (α × Cursor)

/-- The characters that may stand between tokens. -/
def isSpace (c : Char) : Bool :=
  c == ' ' || c == '\n' || c == '\t' || c == '\r'

/-- The cursor after the blanks, counted along the rest of the text. -/
def skipSpacesIn : List Char → Cursor → Cursor
  | [], c => c
  | a :: rest, c => if isSpace a then skipSpacesIn rest c.advance else c

/-- The cursor after the blanks. -/
def skipSpaces (c : Cursor) : Cursor :=
  skipSpacesIn c.rest c

/-- The rest of a literal word. -/
def readWord : (word : List Char) → Reader Unit
  | [], c => .ok ((), c)
  | a :: word, c =>
    match c.peek? with
    | none => c.here .eofInValue
    | some b => if a = b then readWord word c.advance else c.advance.here .expectedIdent

/-! ### Numbers -/

/-- The greatest significand that is kept exactly. -/
def maxSignificand : Nat := Nat.pow 2 64 - 1

/-- The value of a digit. -/
def digit? (c : Char) : Option Nat :=
  if c.isDigit then some (c.toNat - 48) else none

/-- The digits ahead, as a number, with the digits that a limit leaves no room for only counted:
the number, how many digits it has, how many more were passed over, and the cursor after them. -/
def readDigits (limit : Nat) : List Char → (value kept : Nat) → Cursor →
    Nat × Nat × Nat × Cursor
  | [], value, kept, c => (value, kept, 0, c)
  | a :: rest, value, kept, c =>
    match digit? a with
    | none => (value, kept, 0, c)
    | some d =>
      if value * 10 + d > limit then
        let tail := (a :: rest).takeWhile Char.isDigit
        (value, kept, tail.length, tail.foldl (fun c _ => c.advance) c)
      else readDigits limit rest (value * 10 + d) (kept + 1) c.advance

/-- A decimal as a floating point number. -/
def readReal (negative : Bool) (significand : Nat) (e : Int) : Reader Json := fun c =>
  match Binary64.ofDecimal? negative significand e with
  | some x => .ok (.real x, c)
  | none => c.here .numberOutOfRange

/-- The exponent after its letter, and with it the whole number. -/
def readExponent (negative : Bool) (significand : Nat) (e : Int) : Reader Json := fun c =>
  let (positive, c) :=
    match c.peek? with
    | some '+' => (true, c.advance)
    | some '-' => (false, c.advance)
    | _ => (true, c)
  match c.peek? with
  | none => c.here .eofInValue
  | some a =>
    match digit? a with
    | none => c.advance.here .invalidNumber
    | some d =>
      let (n, kept, beyond, after) := readDigits (Nat.pow 2 31 - 1) c.advance.rest d 1 c.advance
      if beyond = 0 then readReal negative significand (if positive then e + n else e - n) after
      else if significand ≠ 0 && positive then
        .error ⟨.numberOutOfRange, c.line, c.column + kept + 1⟩
      else .ok (.real ⟨negative, 0, 0⟩, after)

/-- The digits after the point, and with them the whole number. -/
def readFraction (negative : Bool) (significand : Nat) (e : Int) : Reader Json := fun c =>
  let (m, kept, beyond, after) := readDigits maxSignificand c.rest significand 0 c
  if kept = 0 && beyond = 0 then
    c.ahead (if c.rest.isEmpty then .eofInValue else .invalidNumber)
  else
    match after.peek? with
    | some 'e' | some 'E' => readExponent negative m (e - kept) after.advance
    | _ => readReal negative m (e - kept) after

/-- An integer of 64 bits, with a sign or without; the negative of zero is no integer. -/
def integerOrReal (negative : Bool) (n : Nat) : Json :=
  if negative then
    if n = 0 || n > Nat.pow 2 63 then
      match Binary64.ofNat? n with
      | some x => .real x.neg
      | none => .null
    else .integer (-n)
  else .integer n

/-- A number after its sign. -/
def readNumber (negative : Bool) : Reader Json := fun c =>
  match c.peek? with
  | none => c.here .eofInValue
  | some a =>
    match digit? a with
    | none => c.advance.here .invalidNumber
    | some d =>
      let c := c.advance
      if d = 0 && (c.peek?.map Char.isDigit).getD false then c.ahead .invalidNumber
      else
        let (n, _, beyond, c) :=
          if d = 0 then (0, 1, 0, c) else readDigits maxSignificand c.rest d 1 c
        match c.peek? with
        | some '.' => readFraction negative n beyond c.advance
        | some 'e' | some 'E' => readExponent negative n beyond c.advance
        | _ =>
          if beyond = 0 then .ok (integerOrReal negative n, c) else readReal negative n beyond c

/-! ### Strings -/

/-- The value of a hexadecimal digit. -/
def hexValue? (c : Char) : Option Nat :=
  if c.isDigit then some (c.toNat - 48)
  else if 'a' ≤ c && c ≤ 'f' then some (c.toNat - 87)
  else if 'A' ≤ c && c ≤ 'F' then some (c.toNat - 55)
  else none

/-- The cursor a number of octets further on, which may be inside a character. -/
def skipOctets : (octets : Nat) → List Char → Cursor → Cursor
  | _, [], c => c
  | octets, a :: rest, c =>
    if octets < Utf8.charSize a then { c with column := c.column + octets }
    else skipOctets (octets - Utf8.charSize a) rest c.advance

/-- Four hexadecimal digits; four octets are read in any case. -/
def readHex : Reader Nat := fun c =>
  if Utf8.size (c.rest.take 4) < 4 then
    (c.rest.foldl (fun c _ => c.advance) c).here .eofInString
  else
    match (c.rest.take 4).map hexValue? with
    | [some p, some q, some r, some s] =>
      .ok (((p * 16 + q) * 16 + r) * 16 + s, c.advance.advance.advance.advance)
    | _ => (skipOctets 4 c.rest c).here .invalidEscape

/-- The second half of a character that is written as two escapes. -/
def readLowSurrogate (high : Nat) : Reader Char := fun c =>
  match c.peek? with
  | none => c.here .eofInString
  | some '\\' =>
    let c := c.advance
    match c.peek? with
    | none => c.here .eofInString
    | some 'u' =>
      match readHex c.advance with
      | .error e => .error e
      | .ok (low, c) =>
        if low < 0xdc00 || low > 0xdfff then c.here .loneSurrogate
        else .ok (Char.ofNat ((high - 0xd800) * 1024 + (low - 0xdc00) + 0x10000), c)
    | some _ => c.ahead .unexpectedEndOfEscape
  | some _ => c.ahead .unexpectedEndOfEscape

/-- What follows the backslash of an escape. -/
def readEscape : Reader Char := fun c =>
  match c.peek? with
  | none => c.here .eofInString
  | some a =>
    let c := c.advance
    match a with
    | '"' => .ok ('"', c)
    | '\\' => .ok ('\\', c)
    | '/' => .ok ('/', c)
    | 'b' => .ok ('\x08', c)
    | 'f' => .ok ('\x0c', c)
    | 'n' => .ok ('\n', c)
    | 'r' => .ok ('\r', c)
    | 't' => .ok ('\t', c)
    | 'u' =>
      match readHex c with
      | .error e => .error e
      | .ok (n, c) =>
        if 0xdc00 ≤ n && n ≤ 0xdfff then c.here .loneSurrogate
        else if 0xd800 ≤ n && n ≤ 0xdbff then readLowSurrogate n c
        else .ok (Char.ofNat n, c)
    | _ => c.here .invalidEscape

/-- The characters of a string up to its closing quote; the number bounds the characters left. -/
def readChars : (bound : Nat) → Reader (List Char)
  | 0, c => c.here .eofInString
  | bound + 1, c =>
    match c.peek? with
    | none => c.here .eofInString
    | some '"' => .ok ([], c.advance)
    | some '\\' =>
      match readEscape c.advance with
      | .error e => .error e
      | .ok (a, c) =>
        match readChars bound c with
        | .error e => .error e
        | .ok (s, c) => .ok (a :: s, c)
    | some a =>
      if a.toNat < 0x20 then c.ahead .controlCharacter
      else
        match readChars bound c.advance with
        | .error e => .error e
        | .ok (s, c) => .ok (a :: s, c)

/-- A string after its opening quote. -/
def readString : Reader String := fun c =>
  match readChars (c.rest.length + 1) c with
  | .error e => .error e
  | .ok (s, c) => .ok (String.ofList s, c)

/-! ### Arrays and objects -/

/-- The items of an array from the one at the cursor on, and the end of the array. -/
def readItems (item : Reader Json) : (bound : Nat) → Reader (List Json)
  | 0, c => c.here .eofInList
  | bound + 1, c =>
    match item c with
    | .error e => .error e
    | .ok (v, c) =>
      let c := skipSpaces c
      match c.peek? with
      | none => c.ahead .eofInList
      | some ']' => .ok ([v], c.advance)
      | some ',' =>
        let c := skipSpaces c.advance
        match c.peek? with
        | none => c.ahead .eofInValue
        | some ']' => c.ahead .trailingComma
        | some _ =>
          match readItems item bound c with
          | .error e => .error e
          | .ok (rest, c) => .ok (v :: rest, c)
      | some _ => c.ahead .expectedListCommaOrEnd

/-- An array after its opening bracket. -/
def readArray (item : Reader Json) : Reader Json := fun c =>
  let c := skipSpaces c
  match c.peek? with
  | none => c.ahead .eofInList
  | some ']' => .ok (.array [], c.advance)
  | some _ =>
    match readItems item (c.rest.length + 1) c with
    | .error e => .error e
    | .ok (items, c) => .ok (.array items, c)

/-- The members of an object from the one whose quote is at the cursor on, and the end of the
object. -/
def readMembers (item : Reader Json) : (bound : Nat) → Reader (List (String × Json))
  | 0, c => c.here .eofInObject
  | bound + 1, c =>
    match readString c.advance with
    | .error e => .error e
    | .ok (name, c) =>
      let c := skipSpaces c
      match c.peek? with
      | none => c.ahead .eofInObject
      | some ':' =>
        match item c.advance with
        | .error e => .error e
        | .ok (v, c) =>
          let c := skipSpaces c
          match c.peek? with
          | none => c.ahead .eofInObject
          | some '\x7d' => .ok ([(name, v)], c.advance)
          | some ',' =>
            let c := skipSpaces c.advance
            match c.peek? with
            | none => c.ahead .eofInValue
            | some '\x7d' => c.ahead .trailingComma
            | some '"' =>
              match readMembers item bound c with
              | .error e => .error e
              | .ok (rest, c) => .ok ((name, v) :: rest, c)
            | some _ => c.ahead .keyNotString
          | some _ => c.ahead .expectedObjectCommaOrEnd
      | some _ => c.ahead .expectedColon

/-- An object after its opening brace. -/
def readObject (item : Reader Json) : Reader Json := fun c =>
  let c := skipSpaces c
  match c.peek? with
  | none => c.ahead .eofInObject
  | some '\x7d' => .ok (.object [], c.advance)
  | some '"' =>
    match readMembers item (c.rest.length + 1) c with
    | .error e => .error e
    | .ok (members, c) => .ok (.object (sortMembers members), c)
  | some _ => c.ahead .keyNotString

/-- A value that holds arrays and objects at most `depth` deep. -/
def readValue : (depth : Nat) → Reader Json
  | depth, c =>
    let c := skipSpaces c
    match c.peek? with
    | none => c.ahead .eofInValue
    | some 'n' => (readWord "ull".toList c.advance).map fun (_, c) => (.null, c)
    | some 't' => (readWord "rue".toList c.advance).map fun (_, c) => (.bool true, c)
    | some 'f' => (readWord "alse".toList c.advance).map fun (_, c) => (.bool false, c)
    | some '-' => readNumber true c.advance
    | some '"' => (readString c.advance).map fun (s, c) => (.string s, c)
    | some '[' =>
      match depth with
      | 0 => c.ahead .tooDeep
      | depth + 1 => readArray (readValue depth) c.advance
    | some '\x7b' =>
      match depth with
      | 0 => c.ahead .tooDeep
      | depth + 1 => readObject (readValue depth) c.advance
    | some a => if a.isDigit then readNumber false c else c.ahead .expectedValue

/-- The value that a text holds. -/
def parse? (s : List Char) : Except SyntaxError Json :=
  match readValue 127 (Cursor.start s) with
  | .error e => .error e
  | .ok (v, c) =>
    let c := skipSpaces c
    match c.peek? with
    | none => .ok v
    | some _ => c.ahead .trailingCharacters

end Interdoc.Json

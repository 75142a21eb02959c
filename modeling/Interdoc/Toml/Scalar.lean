import Interdoc.Text.Blank
import Interdoc.Toml.Value

/-!
# Strings, numbers and dates in TOML

Each scanner reads a value at the start of a text and returns it with what follows, or `none` if the
text does not begin with such a value.  Numbers and dates are read from the longest run of
characters that they can be made of, which must be one of them as a whole.
-/

namespace Interdoc.Toml

/-! ### Strings -/

/-- Whether a character may stand in a string or comment: any but controls, of which the tab is
allowed. -/
def isTextChar (c : Char) : Bool :=
  c == '\t' || (' ' ≤ c && c != '\x7f')

/-- The value of a hexadecimal digit. -/
def hexDigit? (c : Char) : Option Nat :=
  if c.isDigit then some (c.toNat - '0'.toNat)
  else if 'a' ≤ c.toLower && c.toLower ≤ 'f' then some (c.toLower.toNat - 'a'.toNat + 10)
  else none

/-- The character with a number of so many hexadecimal digits, and what follows. -/
def numberedChar? (digits : Nat) (s : List Char) : Option (Char × List Char) := do
  let values ← (s.take digits).mapM hexDigit?
  let n := values.foldl (fun n d => 16 * n + d) 0
  if values.length = digits && n.isValidChar then some (Char.ofNat n, s.drop digits) else none

/-- The character after a backslash, and what follows. -/
def escapedChar? (s : List Char) : Option (Char × List Char) :=
  match s with
  | 'b' :: rest => some ('\x08', rest)
  | 't' :: rest => some ('\t', rest)
  | 'n' :: rest => some ('\n', rest)
  | 'f' :: rest => some ('\x0c', rest)
  | 'r' :: rest => some ('\r', rest)
  | '"' :: rest => some ('"', rest)
  | '\\' :: rest => some ('\\', rest)
  | 'u' :: rest => numberedChar? 4 rest
  | 'U' :: rest => numberedChar? 8 rest
  | _ => none

/-- What follows a line end, if one is in front. -/
def afterLineEnd? (s : List Char) : Option (List Char) :=
  match s with
  | '\n' :: rest => some rest
  | '\r' :: '\n' :: rest => some rest
  | _ => none

/-- Whether a character is a space or tab. -/
def isSpace (c : Char) : Bool :=
  c == ' ' || c == '\t'

/-- What follows a backslash at the end of a line: spaces and tabs, a line end, and all blanks and
line ends after it are skipped. -/
def afterContinuation? (s : List Char) : Option (List Char) :=
  (afterLineEnd? (s.dropWhile isSpace)).map fun rest =>
    rest.dropWhile fun c => isSpace c || c == '\n' || c == '\r'

/-- The rest of a string on one line, given the number of characters to read. -/
def stringRest? (isLiteral : Bool) : (fuel : Nat) → List Char → Option (List Char × List Char)
  | 0, _ => none
  | _, [] => none
  | fuel + 1, c :: rest =>
    if c == (if isLiteral then '\x27' else '"') then some ([], rest)
    else if c == '\\' && !isLiteral then do
      let (d, rest) ← escapedChar? rest
      let (s, after) ← stringRest? isLiteral fuel rest
      return (d :: s, after)
    else if isTextChar c then do
      let (s, after) ← stringRest? isLiteral fuel rest
      return (c :: s, after)
    else none

/-- The rest of a string over several lines, given the number of characters to read.  Three quotes
end it; up to two more before them belong to it. -/
def longStringRest? (isLiteral : Bool) : (fuel : Nat) → List Char → Option (List Char × List Char)
  | 0, _ => none
  | _, [] => none
  | fuel + 1, c :: rest =>
    let quote := if isLiteral then '\x27' else '"'
    let quotes := (c :: rest).takeWhile (· == quote)
    if 3 ≤ quotes.length then
      let count := min quotes.length 5
      some (List.replicate (count - 3) quote, (c :: rest).drop count)
    else if !quotes.isEmpty then do
      let (s, after) ← longStringRest? isLiteral fuel ((c :: rest).drop quotes.length)
      return (quotes ++ s, after)
    else if c == '\\' && !isLiteral then
      match afterContinuation? rest with
      | some rest => longStringRest? isLiteral fuel rest
      | none => do
        let (d, rest) ← escapedChar? rest
        let (s, after) ← longStringRest? isLiteral fuel rest
        return (d :: s, after)
    else
      match afterLineEnd? (c :: rest) with
      | some rest => do
        let (s, after) ← longStringRest? isLiteral fuel rest
        return ('\n' :: s, after)
      | none =>
        if isTextChar c then do
          let (s, after) ← longStringRest? isLiteral fuel rest
          return (c :: s, after)
        else none

/-- A string on one line. -/
def string? (s : List Char) : Option (String × List Char) :=
  match s with
  | '"' :: rest =>
    (stringRest? false s.length rest).map fun (t, after) => (String.ofList t, after)
  | '\x27' :: rest =>
    (stringRest? true s.length rest).map fun (t, after) => (String.ofList t, after)
  | _ => none

/-- A string over several lines.  A line end directly after the opening quotes is dropped. -/
def longString? (s : List Char) : Option (String × List Char) :=
  let read (isLiteral : Bool) (rest : List Char) :=
    (longStringRest? isLiteral s.length ((afterLineEnd? rest).getD rest)).map
      fun (t, after) => (String.ofList t, after)
  match s with
  | '"' :: '"' :: '"' :: rest => read false rest
  | '\x27' :: '\x27' :: '\x27' :: rest => read true rest
  | _ => none

/-! ### Numbers -/

/-- The digits of a number in which single underscores may stand between digits. -/
def plainDigits? (isDigit : Char → Bool) (s : List Char) : Option (List Char) :=
  let groups := Text.splitOn '_' s
  if groups.all fun g => !g.isEmpty && g.all isDigit then some groups.flatten else none

/-- The number that digits write in a base. -/
def numberOf (base : Nat) (digits : List Char) : Nat :=
  digits.foldl (fun n c => base * n + (hexDigit? c).getD 0) 0

/-- An integer, if it fits into 64 bits. -/
def integer? (negative : Bool) (n : Nat) : Option Value :=
  if n < Nat.pow 2 63 || (negative && n = Nat.pow 2 63) then
    some (.integer (if negative then -n else n))
  else none

/-- The digits of a decimal number, which has no zero in front. -/
def decimalDigits? (s : List Char) : Option (List Char) :=
  (plainDigits? Char.isDigit s).bind fun digits =>
    if digits.head? = some '0' && 1 < digits.length then none else some digits

/-- The number nearest to a decimal, unless it is beyond the greatest number. -/
def decimal? (negative : Bool) (significand : Nat) (exponent : Int) : Option Value :=
  let places : Int := (toString significand).length + exponent
  if significand = 0 || places < -400 then some (.real ⟨negative, 0, 0⟩)
  else if 400 < places then none
  else
    let (n, d) := Binary64.decimalRatio significand exponent
    (Binary64.ofRatio? negative n d).map .real

/-- A number with a fraction, an exponent or both, or none of them, after its sign. -/
def decimalNumber? (negative : Bool) (s : List Char) : Option Value := do
  let whole := s.takeWhile fun c => c.isDigit || c == '_'
  let digits ← decimalDigits? whole
  let rest := s.drop whole.length
  let (fraction, rest) ← match rest with
    | '.' :: rest =>
      let fraction := rest.takeWhile fun c => c.isDigit || c == '_'
      (plainDigits? Char.isDigit fraction).map fun digits => (digits, rest.drop fraction.length)
    | _ => some ([], rest)
  let exponent : Option Int ← match rest with
    | [] => some none
    | c :: rest =>
      if c.toLower != 'e' then none
      else
        let (sign, rest) : Int × List Char := match rest with
          | '-' :: rest => (-1, rest)
          | '+' :: rest => (1, rest)
          | _ => (1, rest)
        (plainDigits? Char.isDigit rest).map fun digits => some (sign * numberOf 10 digits)
  if fraction.isEmpty && exponent.isNone then integer? negative (numberOf 10 digits)
  else
    decimal? negative (numberOf 10 (digits ++ fraction)) (exponent.getD 0 - fraction.length)

/-- A number, after its sign, if it has one. -/
def unsigned? (sign : Option Char) (s : List Char) : Option Value :=
  let negative := sign == some '-'
  if s = "inf".toList then some (.infinity negative)
  else if s = "nan".toList then some .notNumber
  else
    match sign, s with
    | none, '0' :: 'x' :: digits =>
      (plainDigits? (fun c => (hexDigit? c).isSome) digits).bind
        fun digits => integer? false (numberOf 16 digits)
    | none, '0' :: 'o' :: digits =>
      (plainDigits? (fun c => '0' ≤ c && c ≤ '7') digits).bind
        fun digits => integer? false (numberOf 8 digits)
    | none, '0' :: 'b' :: digits =>
      (plainDigits? (fun c => c == '0' || c == '1') digits).bind
        fun digits => integer? false (numberOf 2 digits)
    | _, _ => decimalNumber? negative s

/-- A number. -/
def number? (s : List Char) : Option Value :=
  match s with
  | '+' :: rest => unsigned? (some '+') rest
  | '-' :: rest => unsigned? (some '-') rest
  | _ => unsigned? none s

/-! ### Dates and times -/

/-- The number that exactly so many digits write, if it is in a range. -/
def field? (digits least most : Nat) (s : List Char) : Option Nat :=
  let n := numberOf 10 s
  if s.length = digits && s.all Char.isDigit && least ≤ n && n ≤ most then some n else none

/-- The number of days of a month. -/
def daysIn (year month : Nat) : Nat :=
  if month = 2 then
    if year % 4 = 0 && (year % 100 ≠ 0 || year % 400 = 0) then 29 else 28
  else if [4, 6, 9, 11].contains month then 30
  else 31

/-- Whether a text is a date. -/
def isDate (s : List Char) : Bool :=
  match Text.splitOn '-' s with
  | [year, month, day] =>
    match field? 4 0 9999 year, field? 2 1 12 month with
    | some y, some m => (field? 2 1 (daysIn y m) day).isSome
    | _, _ => false
  | _ => false

/-- A time without its offset as it is written out: the fraction of the second has at most nine
digits and no zeros at its end. -/
def time? (s : List Char) : Option (List Char) :=
  let (clock, fraction) := (s.takeWhile (· != '.'), s.dropWhile (· != '.'))
  match Text.splitOn ':' clock with
  | [hour, minute, second] =>
    let isClock := (field? 2 0 23 hour).isSome && (field? 2 0 59 minute).isSome &&
      (field? 2 0 60 second).isSome
    if !isClock then none
    else
      match fraction with
      | [] => some clock
      | _ :: digits =>
        if digits.isEmpty || !digits.all Char.isDigit then none
        else
          let kept := Text.dropRightWhile (· == '0') (digits.take 9)
          some (clock ++ '.' :: (if kept.isEmpty then ['0'] else kept))
  | _ => none

/-- The offset of a time as it is written out. -/
def offset? (s : List Char) : Option (List Char) :=
  match s with
  | [] => some []
  | ['z'] => some ['Z']
  | ['Z'] => some ['Z']
  | sign :: rest =>
    match Text.splitOn ':' rest with
    | [hour, minute] =>
      if (sign == '+' || sign == '-') && (field? 2 0 23 hour).isSome &&
          (field? 2 0 59 minute).isSome then
        some s
      else none
    | _ => none

/-- A time and its offset as they are written out. -/
def timeWithOffset? (s : List Char) : Option (List Char) := do
  let clock := s.takeWhile fun c => c.isDigit || c == ':' || c == '.'
  let time ← time? clock
  let offset ← offset? (s.drop clock.length)
  return time ++ offset

/-- A date, a time, or a date and a time. -/
def date? (s : List Char) : Option Value :=
  let text (t : List Char) : Value := .date (String.ofList t)
  if isDate s then some (text s)
  else if isDate (s.take 10) then
    match s.drop 10 with
    | c :: time =>
      if c == 'T' || c == 't' || c == ' ' then
        (timeWithOffset? time).map fun t => text (s.take 10 ++ 'T' :: t)
      else none
    | [] => none
  else (time? s).map text

/-! ### Scalars -/

/-- Whether a character may stand in a number, a date or a truth value. -/
def isScalarChar (c : Char) : Bool :=
  c.isAlphanum || c == '_' || c == '+' || c == '-' || c == '.' || c == ':'

/-- The longest run of characters that may be one scalar, and what follows.  A date may be followed
by a time after a space. -/
def scalarRun (s : List Char) : List Char × List Char :=
  let run := s.takeWhile isScalarChar
  match s.drop run.length with
  | ' ' :: rest =>
    let time := rest.takeWhile isScalarChar
    if isDate run && (time.head?.map Char.isDigit).getD false then
      (run ++ ' ' :: time, rest.drop time.length)
    else (run, ' ' :: rest)
  | rest => (run, rest)

/-- A string, a number, a truth value or a date, and what follows. -/
def scalar? (s : List Char) : Option (Value × List Char) :=
  match longString? s, string? s with
  | some (t, rest), _ => some (.string t, rest)
  | none, some (t, rest) => some (.string t, rest)
  | none, none =>
    let (run, rest) := scalarRun s
    let value :=
      if run = "true".toList then some (.bool true)
      else if run = "false".toList then some (.bool false)
      else (date? run).or (number? run)
    value.map fun v => (v, rest)

end Interdoc.Toml

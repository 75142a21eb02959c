/-!
# Blank characters

`isBlankChar` is the Unicode `White_Space` property, which is larger than the ASCII class of the
core library.  The trimming and splitting functions of the whole library are defined over it, on
lists of characters, so that statements about them are statements about `List.dropWhile` and its
relatives.

The module also holds the few list scanners that every format uses: `stripPrefix?`, `splitOnce?`
and `contains`, each by structural recursion on the text, and the lines of a text (`lines`).
-/

namespace Interdoc.Text

/-- The Unicode `White_Space` property. -/
def isBlankChar (c : Char) : Bool :=
  ('\t' ≤ c && c ≤ '\r') || c == ' ' || c == '\x85' || c == '\xa0' || c == '\u1680' ||
  ('\u2000' ≤ c && c ≤ '\u200a') || c == '\u2028' || c == '\u2029' || c == '\u202f' ||
  c == '\u205f' || c == '\u3000'

/-- The whitespace of the HTML and CommonMark grammars without the vertical tab: tab, line feed,
form feed, carriage return and space. -/
def isAsciiBlank (c : Char) : Bool :=
  c == ' ' || c == '\t' || c == '\n' || c == '\x0c' || c == '\r'

/-- The whitespace of ASCII, with the vertical tab. -/
def isAsciiSpace (c : Char) : Bool :=
  c == ' ' || ('\t' ≤ c && c ≤ '\r')

/-- The characters that only lay a text out: space, tab and the ends of lines. -/
def isLayoutChar (c : Char) : Bool :=
  c == ' ' || c == '\t' || c == '\n' || c == '\r'

/-! ### Trimming -/

/-- The text without the longest run of characters of the class at its end. -/
def dropRightWhile (p : Char → Bool) (s : List Char) : List Char :=
  (s.reverse.dropWhile p).reverse

/-- The text without blanks at its start. -/
def trimLeft (s : List Char) : List Char :=
  s.dropWhile isBlankChar

/-- The text without blanks at its end. -/
def trimRight (s : List Char) : List Char :=
  dropRightWhile isBlankChar s

/-- The text without blanks at either end. -/
def trim (s : List Char) : List Char :=
  trimRight (trimLeft s)

/-- The text without layout characters at its end. -/
def trimLayoutRight (s : List Char) : List Char :=
  dropRightWhile isLayoutChar s

/-- The text without layout characters at either end. -/
def trimLayout (s : List Char) : List Char :=
  trimLayoutRight (s.dropWhile isLayoutChar)

/-- Whether the text has nothing but blanks. -/
def isBlank (s : List Char) : Bool :=
  s.all isBlankChar

/-! ### Scanning -/

/-- What follows `p` if the text starts with it. -/
def stripPrefix? : (p s : List Char) → Option (List Char)
  | [], s => some s
  | _ :: _, [] => none
  | a :: p, b :: s => if a = b then stripPrefix? p s else none

/-- What precedes `p` if the text ends with it. -/
def stripSuffix? (p s : List Char) : Option (List Char) :=
  (stripPrefix? p.reverse s.reverse).map List.reverse

/-- Whether the text starts with `p`. -/
def startsWith (p s : List Char) : Bool :=
  (stripPrefix? p s).isSome

/-- The text before and the text after the first occurrence of `p`. -/
def splitOnce? (p : List Char) : (s : List Char) → Option (List Char × List Char)
  | [] => if p.isEmpty then some ([], []) else none
  | c :: s =>
    match stripPrefix? p (c :: s) with
    | some rest => some ([], rest)
    | none => (splitOnce? p s).map fun (before, after) => (c :: before, after)

/-- Whether `p` occurs in the text. -/
def contains (p s : List Char) : Bool :=
  (splitOnce? p s).isSome

/-- The number of positions at which `p` occurs, counted without overlap from the left.  The second
argument is the number of characters that still belong to the occurrence counted last. -/
def countAux (p : List Char) : (skip : Nat) → (s : List Char) → Nat
  | _, [] => 0
  | skip + 1, _ :: s => countAux p skip s
  | 0, c :: s =>
    if startsWith p (c :: s) then countAux p (p.length - 1) s + 1 else countAux p 0 s

/-- The number of occurrences of a non-empty `p`, without overlap. -/
def count (p s : List Char) : Nat :=
  countAux p 0 s

/-- Every occurrence of `p` replaced by `q`, from the left and without overlap.  The first number is
the count of characters that still belong to the occurrence replaced last. -/
def replaceAux (p q : List Char) : (skip : Nat) → (s : List Char) → List Char
  | _, [] => []
  | skip + 1, _ :: s => replaceAux p q skip s
  | 0, c :: s =>
    if startsWith p (c :: s) then q ++ replaceAux p q (p.length - 1) s
    else c :: replaceAux p q 0 s

/-- Every occurrence of a non-empty `p` replaced by `q`. -/
def replace (p q s : List Char) : List Char :=
  replaceAux p q 0 s

/-! ### Splitting -/

/-- The pieces of the text between the occurrences of a separator: one more than there are
separators. -/
def splitOn (sep : Char) : List Char → List (List Char)
  | [] => [[]]
  | c :: s =>
    if c = sep then [] :: splitOn sep s
    else match splitOn sep s with
      | [] => [[c]]
      | first :: rest => (c :: first) :: rest

/-- The maximal runs of characters outside the class. -/
def fields (p : Char → Bool) : List Char → List (List Char)
  | [] => []
  | c :: s =>
    if p c then fields p s
    else match s with
      | [] => [[c]]
      | d :: _ =>
        if p d then [c] :: fields p s
        else match fields p s with
          | [] => [[c]]
          | first :: rest => (c :: first) :: rest

/-- The maximal runs of non-blank characters. -/
def words (s : List Char) : List (List Char) :=
  fields isBlankChar s

/-- The pieces with a separator between each two. -/
def join (sep : List Char) : List (List Char) → List Char
  | [] => []
  | [s] => s
  | s :: rest => s ++ sep ++ join sep rest

/-! ### Lines

A line ends at a line feed; a carriage return directly before that line feed belongs to the ending.
A line feed at the very end of the text does not start another line, and a carriage return that is
not followed by a line feed is an ordinary character.
-/

/-- A line without the carriage return of its ending. -/
def chompReturn (line : List Char) : List Char :=
  (stripSuffix? ['\r'] line).getD line

/-- The lines of the pieces between line feeds: all but the last piece were ended by a line feed,
and an empty last piece is no line. -/
def linesOfPieces : List (List Char) → List (List Char)
  | [] => []
  | [last] => if last.isEmpty then [] else [last]
  | piece :: rest => chompReturn piece :: linesOfPieces rest

/-- The lines of a text, without their endings. -/
def lines (s : List Char) : List (List Char) :=
  linesOfPieces (splitOn '\n' s)

/-- Lines joined by line feeds, without one at the end. -/
def unlines (ls : List (List Char)) : List Char :=
  join ['\n'] ls

/-! ### Letter case -/

/-- ASCII letters in lower case, everything else as it is. -/
def toLower (s : List Char) : List Char :=
  s.map Char.toLower

/-- Equality up to the case of ASCII letters. -/
def sameLetters (s t : List Char) : Bool :=
  toLower s == toLower t

end Interdoc.Text

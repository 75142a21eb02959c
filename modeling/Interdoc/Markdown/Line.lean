import Interdoc.Text.Blank

/-!
# Lines and columns

What is left of a line, and the column at which it begins.  A tab reaches to the next multiple of
four columns; when only some of its columns belong to a block, the tab stays in front and the column
tells how much of it is used.
-/

namespace Interdoc.Markdown

/-- The rest of a line. -/
structure Line where
  rest : List Char
  column : Nat := 0
  /-- Whether some columns of the tab in front are used. -/
  splitsTab : Bool := false
  deriving DecidableEq, Repr

namespace Line

/-- The distance between two tab stops. -/
def tabStop : Nat := 4

/-- The columns from a column to the next tab stop. -/
def toTabStop (column : Nat) : Nat :=
  tabStop - column % tabStop

/-- Whether a character indents. -/
def isIndent (c : Char) : Bool :=
  c == ' ' || c == '\t'

/-- The column of the first character that does not indent. -/
def contentColumn : (column : Nat) → List Char → Nat
  | column, [] => column
  | column, c :: rest =>
    if c = ' ' then contentColumn (column + 1) rest
    else if c = '\t' then contentColumn (column + toTabStop column) rest
    else column

/-- The columns of the indentation. -/
def indent (l : Line) : Nat :=
  contentColumn l.column l.rest - l.column

/-- The characters from the first one on that does not indent. -/
def content (l : Line) : List Char :=
  l.rest.dropWhile isIndent

/-- Whether the line has nothing but indentation. -/
def isBlank (l : Line) : Bool :=
  l.content.isEmpty

/-- The line after a character. -/
def dropChar (l : Line) : Line :=
  match l.rest with
  | [] => l
  | '\t' :: rest => ⟨rest, l.column + toTabStop l.column, false⟩
  | _ :: rest => ⟨rest, l.column + 1, false⟩

/-- The line after a number of characters. -/
def dropChars : (count : Nat) → Line → Line
  | 0, l => l
  | count + 1, l => dropChars count l.dropChar

/-- The line after a column. -/
def dropColumn (l : Line) : Line :=
  match l.rest with
  | [] => l
  | '\t' :: rest =>
    if toTabStop l.column = 1 then ⟨rest, l.column + 1, false⟩
    else ⟨'\t' :: rest, l.column + 1, true⟩
  | _ :: rest => ⟨rest, l.column + 1, false⟩

/-- The line after a number of columns. -/
def dropColumns : (count : Nat) → Line → Line
  | 0, l => l
  | count + 1, l => dropColumns count l.dropColumn

/-- The line without its indentation. -/
def dropIndent (l : Line) : Line :=
  dropChars (l.rest.takeWhile isIndent).length l

/-- The line after one column of a space or a tab, if one is in front. -/
def dropOptionalBlank (l : Line) : Line :=
  if (l.rest.head?.map isIndent).getD false then l.dropColumn else l

/-- The text of the line, with its end.  The unused columns of a tab in front are spaces. -/
def toText (l : Line) : List Char :=
  let rest :=
    if l.splitsTab then List.replicate (toTabStop l.column) ' ' ++ l.rest.drop 1 else l.rest
  rest ++ ['\n']

end Line

/-- The lines of a text.  A line feed, a carriage return or both together end a line; the number
zero is no character, and a byte order mark at the very start is dropped. -/
def linesOf (s : List Char) : List (List Char) :=
  let s := match s with
    | '\ufeff' :: rest => rest
    | _ => s
  let pieces := Text.splitOn '\n' (unifyEnds s)
  if pieces.getLast? == some [] then pieces.dropLast else pieces
where
  /-- The text with every line end a line feed. -/
  unifyEnds : List Char → List Char
    | [] => []
    | '\r' :: '\n' :: rest => '\n' :: unifyEnds rest
    | '\r' :: rest => '\n' :: unifyEnds rest
    | '\x00' :: rest => '\ufffd' :: unifyEnds rest
    | c :: rest => c :: unifyEnds rest

end Interdoc.Markdown

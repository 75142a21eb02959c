import Interdoc.Document.Basic

/-!
# Rows of tables

A row is a line of cells between vertical bars; the bars at its ends may be missing.  A bar after a
backslash is text.  The second row of a table has nothing but hyphens and colons in its cells, and
the colons give the alignments of the columns.
-/

namespace Interdoc.Markdown

/-- Whether a character is a blank within a row. -/
def isRowBlank (c : Char) : Bool :=
  c == ' ' || c == '\t' || c == '\x0b' || c == '\x0c'

/-- A text without the backslashes before vertical bars. -/
def unescapeBars : List Char → List Char
  | '\\' :: '|' :: rest => '|' :: unescapeBars rest
  | c :: rest => c :: unescapeBars rest
  | [] => []

/-- The text of a cell up to the next bar that no backslash precedes, and the rest of the line. -/
def splitCell : (afterBackslash : Bool) → List Char → List Char × List Char
  | _, [] => ([], [])
  | afterBackslash, c :: rest =>
    if c = '|' && !afterBackslash then ([], c :: rest)
    else
      let (cell, after) := splitCell (c = '\\') rest
      (c :: cell, after)

/-- The content of a cell. -/
def cellContent (s : List Char) : List Char :=
  Text.trimLayout (unescapeBars s)

/-- The line after a bar and the blanks after it, if a bar is in front. -/
def afterBar? (s : List Char) : Option (List Char) :=
  match s with
  | '|' :: rest => some (rest.dropWhile isRowBlank)
  | _ => none

/-- The cells of the rest of a line, given the number of characters to read. -/
def cellsAux : (fuel : Nat) → List Char → List (List Char)
  | 0, _ => []
  | fuel + 1, s =>
    let (cell, rest) := splitCell false s
    match afterBar? rest with
    | some rest => cellContent cell :: cellsAux fuel rest
    | none => if cell.isEmpty then [] else [cellContent cell]

/-- The cells of a line, `none` if there are none. -/
def rowCells? (s : List Char) : Option (List (List Char)) :=
  let cells := cellsAux (s.length + 1) ((afterBar? s).getD s)
  if cells.isEmpty then none else some cells

/-- Whether a text is the cell of the second row of a table: hyphens, at least one, between optional
colons and blanks. -/
def isRuleCell (s : List Char) : Bool :=
  let s := (s.dropWhile isRowBlank).reverse.dropWhile isRowBlank
  let s := if s.head? == some ':' then s.drop 1 else s
  let s := if s.getLast? == some ':' then s.dropLast else s
  !s.isEmpty && s.all (· == '-')

/-- Whether a line is the second row of a table. -/
def isRuleRow (s : List Char) : Bool :=
  let s := match s with
    | '|' :: rest => rest
    | _ => s
  match (Text.splitOn '|' s).reverse with
  | [] => false
  | [only] => isRuleCell only
  | last :: cells => cells.all isRuleCell && (isRuleCell last || last.all isRowBlank)

/-- The alignment that a cell of the second row gives its column. -/
def columnAlignment? (cell : List Char) : Option Alignment :=
  match cell.head? == some ':', cell.getLast? == some ':' with
  | true, true => some .center
  | true, false => some .left
  | false, true => some .right
  | false, false => none

end Interdoc.Markdown

import Interdoc.Document.Basic
import Interdoc.Latex.Segment

/-!
# Tabular bodies

The body of a tabular is one text, in which `\\` ends a row and rule commands stand between rows.
A rule and the end of the body also end a row, unless nothing but blanks is pending.  A first row
that stands directly between two rules is the header row.

The column specification gives the alignments: of the characters outside braces, `l`, `c` and `r`
count and all others are passed over.
-/

namespace Interdoc.Latex

/-! ### Column specifications -/

/-- The alignments in a column specification inside `depth` braces. -/
def columnsFrom : (depth : Nat) → List Char → List Alignment
  | _, [] => []
  | depth, '\x7b' :: s => columnsFrom (depth + 1) s
  | depth, '\x7d' :: s => columnsFrom (depth - 1) s
  | 0, 'l' :: s => .left :: columnsFrom 0 s
  | 0, 'c' :: s => .center :: columnsFrom 0 s
  | 0, 'r' :: s => .right :: columnsFrom 0 s
  | depth, _ :: s => columnsFrom depth s

/-- The alignments in a column specification. -/
def columns (s : List Char) : List Alignment :=
  columnsFrom 0 s

/-! ### Rows and rules -/

/-- A part of a tabular body. -/
inductive TablePiece where
  | rule
  | row (text : List Char)
  deriving DecidableEq

/-- The commands that draw a rule. -/
def ruleNames : List (List Char) :=
  ["hline".toList, "toprule".toList, "midrule".toList, "bottomrule".toList, "cline".toList]

/-- What follows the rule command whose backslash stands before the text, and its argument. -/
def rule? (s : List Char) : Option (List Char) :=
  if ruleNames.contains (s.takeWhile Char.isAlpha) then
    let rest := s.dropWhile Char.isAlpha
    match braced? rest with
    | some (_, after) => some after
    | none => some rest
  else none

theorem length_rule? {s rest : List Char} (h : rule? s = some rest) : rest.length ≤ s.length := by
  unfold rule? at h
  have h₁ := (List.dropWhile_sublist Char.isAlpha (l := s)).length_le
  split at h
  · dsimp only at h
    split at h
    · next h₂ =>
      have := length_braced? h₂
      simp only [Option.some.injEq] at h
      subst h
      omega
    · simp only [Option.some.injEq] at h
      subst h
      exact h₁
  · simp at h

/-- The row that a rule or the end of the body leaves, if it has more than blanks. -/
def pendingRow (row : List Char) : List TablePiece :=
  if Text.isBlank row then [] else [.row row]

/-- The pieces of a tabular body, after the given beginning of a row. -/
def tablePieces (row : List Char) : List Char → List TablePiece
  | [] => pendingRow row
  | c :: s =>
    if c = '\\' then
      match s with
      | [] => pendingRow (row ++ [c])
      | d :: t =>
        if d = '\\' then .row row :: tablePieces [] (skipBracketed t)
        else match _h : rule? (d :: t) with
          | some rest => pendingRow row ++ .rule :: tablePieces [] rest
          | none => tablePieces (row ++ [c, d]) t
    else tablePieces (row ++ [c]) s
termination_by s => s.length
decreasing_by
  · have := length_skipBracketed t
    simp only [List.length_cons]
    omega
  · have := length_rule? _h
    simp only [List.length_cons] at this ⊢
    omega
  · simp only [List.length_cons]
    omega
  · simp

/-- The cells of a row, without the blanks around them. -/
def cellTexts (row : List Char) : List (List Char) :=
  (splitTop '&' row).map Text.trim

/-- The texts of the rows among the pieces. -/
def rowTexts (pieces : List TablePiece) : List (List Char) :=
  pieces.filterMap fun
    | .row text => some text
    | .rule => none

/-- Whether the first row stands directly between two rules. -/
def hasHeader : List TablePiece → Bool
  | .rule :: .row _ :: .rule :: _ => true
  | .rule :: rest => hasHeader rest
  | _ => false

/-! ### Tables -/

/-- The parts of a tabular, its cells unread. -/
structure Tabular where
  header : Option (List (List Char))
  rows : List (List (List Char))
  alignments : Option (List Alignment)

/-- The table with the given column specification and body. -/
def Tabular.ofBody (spec body : List Char) : Tabular :=
  let pieces := tablePieces [] body
  let rows := (rowTexts pieces).map cellTexts
  let alignments := columns spec
  { header := if hasHeader pieces then rows.head? else none
    rows := if hasHeader pieces then rows.tail else rows
    alignments := if alignments.isEmpty then none else some alignments }

/-- A line of a tabular body as part of the whole: a space before it and its comment cut off, or
nothing if all of it is a comment. -/
def tabularLine (line : Line) : List Char :=
  if isComment line then [] else ' ' :: stripComment (Text.trim line)

/-- The table that an environment holds.  The specification may come after an optional argument. -/
def Environment.tabular (e : Environment) : Tabular :=
  let rest := skipBracketed (Text.trimLeft e.opening)
  let lines := e.body.flatMap tabularLine
  match braced? rest with
  | some (spec, first) => .ofBody spec (first ++ lines)
  | none => .ofBody [] (rest ++ lines)

end Interdoc.Latex

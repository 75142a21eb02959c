import Interdoc.Latex.Segment

/-!
# List items

The body of a list falls into items at the lines that start with `\item` outside all environments.
How many environments are open is counted over whole lines, by the difference between opening and
closing markers of any name.  Lines before the first item form an item of their own unless they are
all blank.
-/

namespace Interdoc.Latex

/-- The number of open environments after a line; a count never falls below zero. -/
def depthAfter (depth : Nat) (line : Line) : Nat :=
  depth + Text.count "\\begin\x7b".toList line - Text.count "\\end\x7b".toList line

/-- What follows the `\item` at the start of a line and its optional label. -/
def item? (line : Line) : Option Line :=
  match Text.stripPrefix? "\\item".toList line with
  | some rest =>
    if startsWithLetter rest then none else some (Text.trimLeft (skipBracketed rest))
  | none => none

/-- The lines before the first item, and the lines of each item, where `depth` environments are
open. -/
def splitItems : (depth : Nat) → List Line → List Line × List (List Line)
  | _, [] => ([], [])
  | depth, line :: lines =>
    let (leading, items) := splitItems (depthAfter depth (Text.trim line)) lines
    match if depth = 0 then item? (Text.trim line) else none with
    | some first => ([], (first :: leading) :: items)
    | none => (line :: leading, items)

/-- The lines of each item of a list body. -/
def itemLines (body : List Line) : List (List Line) :=
  let (leading, items) := splitItems 0 body
  if leading.all Text.isBlank then items else leading :: items

end Interdoc.Latex

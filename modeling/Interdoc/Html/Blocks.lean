import Interdoc.Document.Normalize
import Interdoc.Html.Node

/-!
# HTML as a document

The children of a `body` are read as blocks.  Block elements make blocks, inline elements inlines,
and every other element is replaced by its children, so that unknown markup keeps its text.  Inline
content between blocks is gathered into a paragraph of its own unless it is blank; in the same way
content of a list outside all items makes an item of its own.

All functions are by structural recursion on the tree, and carry what they have gathered so far.
-/

namespace Interdoc.Html

open Interdoc (Inline Block Alignment)

/-! ### Inlines -/

mutual

/-- The inlines that a node makes. -/
def inlinesOf : Node → List Inline
  | .text s => [.text s]
  | .other _ => []
  | .element tag attributes children =>
    if tag = "strong" || tag = "b" then [.strong (inlinesAmong children)]
    else if tag = "em" || tag = "i" then [.emphasis (inlinesAmong children)]
    else if tag = "u" then [.underline (inlinesAmong children)]
    else if tag = "span" && ((attributes.lookup "style").map isUnderlineStyle).getD false then
      [.underline (inlinesAmong children)]
    else if tag = "code" || tag = "tt" || tag = "kbd" then
      [.code (Node.textContentAmong children)]
    else if tag = "br" then [.lineBreak]
    else if tag = "a" then
      [.link ((attributes.lookup "href").getD "") (inlinesAmong children)]
    else if tag = "img" then
      [.image ((attributes.lookup "src").getD "")
        ((attributes.lookup "alt").filter fun alt => alt != "")]
    else inlinesAmong children

/-- The inlines that nodes make. -/
def inlinesAmong : List Node → List Inline
  | [] => []
  | node :: rest => inlinesOf node ++ inlinesAmong rest

end

/-! ### Blocks -/

/-- The elements that make blocks, or hold them. -/
def blockTags : List String :=
  ["p", "h1", "h2", "h3", "h4", "h5", "h6", "ul", "ol", "li", "blockquote", "pre", "hr", "table",
    "div", "section", "article", "body"]

/-- The level of a heading element. -/
def headingLevel? (tag : String) : Option Nat :=
  ["h1", "h2", "h3", "h4", "h5", "h6"].findIdx? (· == tag) |>.map (· + 1)

/-- Whether an inline is blank text. -/
def isBlankText : Inline → Bool
  | .text s => Text.isBlank s.toList
  | _ => false

/-- A paragraph of gathered inlines, unless they are blank. -/
def gathered (pending : List Inline) : List Block :=
  if pending.all isBlankText then [] else [.paragraph pending]

/-- An item of gathered blocks, unless there are none. -/
def gatheredItem (blocks : List Block) : List (List Block) :=
  if blocks.isEmpty then [] else [blocks]

/-- A text without one line feed at its end. -/
def chompLine (s : String) : String :=
  match Text.stripSuffix? ['\n'] s.toList with
  | some rest => String.ofList rest
  | none => s

/-- A block of code; its language is that of the first `code` element directly inside. -/
def codeBlock (children : List Node) : Block :=
  let language := ((children.find? (Node.isTagged "code")).bind (·.attribute? "class")).bind
    classLanguage?
  .code (chompLine (Node.textContentAmong children)) language

/-- A row of a table: its cells with their alignments, and whether it can be a header. -/
structure Row where
  isHeader : Bool
  cells : List (List Block × Option Alignment)

/-- A table with the given rows.  The first row is the header if all its cells are header cells, and
gives the alignments if any of its cells has one. -/
def tableOf (rows : List Row) : Block :=
  let alignments := match rows with
    | [] => none
    | first :: _ =>
      if first.cells.all fun c => c.2.isNone then none
      else some (first.cells.map fun c => c.2.getD .left)
  let contents := rows.map fun r => r.cells.map (·.1)
  match rows with
  | ⟨true, cells⟩ :: rest =>
    .table (some (cells.map (·.1))) (rest.map fun r => r.cells.map (·.1)) alignments
  | _ => .table none contents alignments

/-- Whether a node is a cell, and whether it is a header cell. -/
def isHeaderCell? : Node → Option Bool
  | .element tag _ _ => if tag = "th" then some true else if tag = "td" then some false else none
  | _ => none

/-- Whether the cells among nodes make a header row: there is one, and all are header cells. -/
def isHeaderRow (nodes : List Node) : Bool :=
  let kinds := nodes.filterMap isHeaderCell?
  !kinds.isEmpty && kinds.all id

mutual

/-- The blocks that a block element makes. -/
def blockOf (tag : String) (children : List Node) : List Block :=
  if tag = "p" then [.paragraph (inlinesAmong children)]
  else match headingLevel? tag with
    | some level => [.heading level (inlinesAmong children)]
    | none =>
      if tag = "ul" || tag = "ol" then [.list (tag == "ol") (itemsFrom [] [] children)]
      else if tag = "blockquote" then [.quote (blocksFrom [] children)]
      else if tag = "pre" then [codeBlock children]
      else if tag = "hr" then [.rule]
      else if tag = "table" then [tableOf (rowsAmong children)]
      else blocksFrom [] children

/-- The blocks that nodes make after gathered inlines. -/
def blocksFrom (pending : List Inline) : List Node → List Block
  | [] => gathered pending
  | .text s :: rest => blocksFrom (pending ++ [.text s]) rest
  | .other _ :: rest => blocksFrom pending rest
  | .element tag attributes children :: rest =>
    if blockTags.contains tag then
      gathered pending ++ blockOf tag children ++ blocksFrom [] rest
    else blocksFrom (pending ++ inlinesOf (.element tag attributes children)) rest

/-- The items that the children of a list make, after blocks and inlines gathered outside of
items. -/
def itemsFrom (blocks : List Block) (pending : List Inline) : List Node → List (List Block)
  | [] => gatheredItem (blocks ++ gathered pending)
  | .text s :: rest => itemsFrom blocks (pending ++ [.text s]) rest
  | .other _ :: rest => itemsFrom blocks pending rest
  | .element tag attributes children :: rest =>
    if tag = "li" then
      gatheredItem (blocks ++ gathered pending) ++ blocksFrom [] children :: itemsFrom [] [] rest
    else if blockTags.contains tag then
      itemsFrom (blocks ++ gathered pending ++ blockOf tag children) [] rest
    else itemsFrom blocks (pending ++ inlinesOf (.element tag attributes children)) rest

/-- The rows among nodes, those inside row groups too. -/
def rowsAmong : List Node → List Row
  | [] => []
  | .element tag _ children :: rest =>
    if tag = "tr" then ⟨isHeaderRow children, cellsAmong children⟩ :: rowsAmong rest
    else if tag = "thead" || tag = "tbody" || tag = "tfoot" then
      rowsAmong children ++ rowsAmong rest
    else rowsAmong rest
  | .text _ :: rest => rowsAmong rest
  | .other _ :: rest => rowsAmong rest

/-- The cells among nodes. -/
def cellsAmong : List Node → List (List Block × Option Alignment)
  | [] => []
  | .element tag attributes children :: rest =>
    if tag = "td" || tag = "th" then
      (blocksFrom [] children, cellAlignment? attributes) :: cellsAmong rest
    else cellsAmong rest
  | .text _ :: rest => cellsAmong rest
  | .other _ :: rest => cellsAmong rest

end

/-- The blocks that nodes make. -/
def blocksOf (nodes : List Node) : List Block :=
  blocksFrom [] nodes

/-- The document that the children of a body make, in normal form. -/
def documentOf (nodes : List Node) : Document :=
  (Document.mk (blocksOf nodes)).normalize

end Interdoc.Html

import Interdoc.Document.PlainText
import Interdoc.Markdown.Tree
import Interdoc.Markdown.Underline

/-!
# From documents to Markdown trees

Each kind of block has its kind of node.  What Markdown cannot say is handled as follows: an empty
paragraph and a table without rows are left out, underlined text stands between HTML tags, a table
without a header has its first row as the header, and the cells of a table are reduced to spans.
-/

namespace Interdoc.Markdown

open Interdoc (Inline)

/-! ### Spans -/

namespace Span

/-- The spans of a text: its lines, with soft breaks between them. -/
def ofText (s : List Char) : List Span :=
  let line (piece : List Char) : List Span :=
    if piece.isEmpty then [] else [.text (String.ofList piece)]
  match Text.splitOn '\n' s with
  | [] => []
  | first :: rest => line first ++ rest.flatMap fun piece => .softBreak :: line piece

mutual

/-- The spans of an inline. -/
def ofInline : Inline → List Span
  | .text s => ofText s.toList
  | .strong inlines => [.strong (ofInlines inlines)]
  | .emphasis inlines => [.emphasis (ofInlines inlines)]
  | .underline inlines =>
    .html (String.ofList openTag) :: ofInlines inlines ++ [.html (String.ofList closeTag)]
  | .code s => [.code s]
  | .lineBreak => [.lineBreak]
  | .link href inlines => [.link href (ofInlines inlines)]
  | .image src alt =>
    let text := alt.getD ""
    [.image src (if text = "" then [] else [.text text])]

/-- The spans of a sequence of inlines. -/
def ofInlines : List Inline → List Span
  | [] => []
  | i :: rest => ofInline i ++ ofInlines rest

end

end Span

/-! ### Tables -/

/-- The inlines of a block in a cell: its own if it is a paragraph or a heading, its text on a
single line if it is anything else. -/
def cellInlinesOfBlock : Block → List Inline
  | .paragraph inlines => inlines
  | .heading _ inlines => inlines
  | b => [.text (String.ofList (Text.replace ['\n'] [' '] b.plainText.toList))]

/-- The inlines of a cell, those of different blocks with a space between them. -/
def cellInlines : List Block → List Inline
  | [] => []
  | [b] => cellInlinesOfBlock b
  | b :: rest => cellInlinesOfBlock b ++ .text " " :: cellInlines rest

/-- A list cut or filled up to a length. -/
def padTo {α : Type} (n : Nat) (filler : α) (xs : List α) : List α :=
  xs.take n ++ List.replicate (n - xs.length) filler

/-- The number of columns that hold every cell and every alignment, at least one. -/
def columnCount (rows : List (List (List Block))) (alignments : Option (List Alignment)) : Nat :=
  max 1 ((alignments.elim 0 List.length :: rows.map List.length).foldl max 0)

/-- The nodes of a table: none if it has no rows, else one in which every row has all columns. -/
def tableNodes (rows : List (List (List Block))) (alignments : Option (List Alignment)) :
    List Node :=
  if rows.isEmpty then []
  else
    let columns := columnCount rows alignments
    [.table (padTo columns none ((alignments.getD []).map some))
      (rows.map fun row => padTo columns [] (row.map (Span.ofInlines ∘ cellInlines)))]

/-! ### Blocks -/

/-- Literal lines with a text. -/
def codeLiteral (text : String) : String :=
  if text = "" then "" else text ++ "\n"

namespace Node

mutual

/-- The nodes of a block, none or one. -/
def ofBlock : Block → List Node
  | .paragraph inlines => if inlines.isEmpty then [] else [.paragraph (Span.ofInlines inlines)]
  | .heading level inlines => [.heading (max 1 (min level 6)) (Span.ofInlines inlines)]
  | .list ordered items =>
    [.list ordered (items.all fun blocks => decide (blocks.length ≤ 1)) (ofItems items)]
  | .quote blocks => [.quote (ofBlocks blocks)]
  | .code text language => [.code (language.getD "") (codeLiteral text)]
  | .rule => [.rule]
  | .table header rows alignments => tableNodes (header.toList ++ rows) alignments

/-- The nodes of a sequence of blocks. -/
def ofBlocks : List Block → List Node
  | [] => []
  | b :: rest => ofBlock b ++ ofBlocks rest

/-- The nodes of each item. -/
def ofItems : List (List Block) → List (List Node)
  | [] => []
  | blocks :: rest => ofBlocks blocks :: ofItems rest

end

/-- The Markdown tree of a document. -/
def ofDocument (d : Document) : List Node :=
  ofBlocks d.blocks

end Node

end Interdoc.Markdown

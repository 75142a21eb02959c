import Interdoc.Document.Normalize
import Interdoc.Document.PlainText
import Interdoc.Markdown.Tree
import Interdoc.Markdown.Underline

/-!
# From Markdown trees to documents

Each kind of node has its kind of block.  What documents cannot say is handled as follows: struck
text is plain text, raw HTML is text unless it marks underlining, and a comment that stands alone is
dropped.  The description of an image is its plain text.
-/

namespace Interdoc.Markdown

open Interdoc (Inline)

/-! ### Spans -/

/-- The description of an image, if it has any. -/
def description? (inlines : List Inline) : Option String :=
  let alt := Inline.plainTextList inlines
  if alt = "" then none else some alt

namespace Span

mutual

/-- The pieces that a span consists of: struck text has those of its content. -/
def toPieces : Span → List InlinePiece
  | .text s => [.inline (.text s)]
  | .softBreak => [.inline (.text "\n")]
  | .lineBreak => [.inline .lineBreak]
  | .code s => [.inline (.code s)]
  | .html s => [.raw s]
  | .strong spans => [.inline (.strong (resolveUnderline (listToPieces spans)))]
  | .emphasis spans => [.inline (.emphasis (resolveUnderline (listToPieces spans)))]
  | .strike spans => listToPieces spans
  | .link url spans => [.inline (.link url (resolveUnderline (listToPieces spans)))]
  | .image url spans =>
    [.inline (.image url (description? (resolveUnderline (listToPieces spans))))]

/-- The pieces that a sequence of spans consists of. -/
def listToPieces : List Span → List InlinePiece
  | [] => []
  | s :: rest => toPieces s ++ listToPieces rest

end

/-- The inlines of a sequence of spans. -/
def toInlines (spans : List Span) : List Inline :=
  resolveUnderline (listToPieces spans)

end Span

/-! ### Blocks -/

/-- The block of a literal HTML text.  A comment has none, and neither has a blank text. -/
def blocksOfHtml (literal : List Char) : List Block :=
  let content := Text.trimRight literal
  let isComment := Text.startsWith "<!--".toList content &&
    (Text.stripSuffix? "-->".toList content).isSome
  if content.isEmpty || isComment then []
  else [.paragraph (resolveUnderline [.raw (String.ofList content)])]

/-- The text of literal lines, without the line feed at the end. -/
def codeText (literal : List Char) : List Char :=
  (Text.stripSuffix? ['\n'] literal).getD literal

/-- The language that an info string names: its first word. -/
def language? (info : List Char) : Option String :=
  (Text.words info).head?.map String.ofList

/-- The alignments of the columns of a table.  If any column has one, the others are aligned to the
left. -/
def columnAlignments? (columns : List (Option Alignment)) : Option (List Alignment) :=
  if columns.all Option.isNone then none else some (columns.map (·.getD .left))

/-- The block of a table, whose first row is the header. -/
def tableBlock (alignments : List (Option Alignment)) (rows : List (List (List Span))) : Block :=
  let cells := rows.map fun row => row.map fun spans => [Block.paragraph (Span.toInlines spans)]
  .table cells.head? cells.tail (columnAlignments? alignments)

namespace Node

mutual

/-- The blocks of a node. -/
def toBlocks : Node → List Block
  | .paragraph spans => [.paragraph (Span.toInlines spans)]
  | .heading level spans => [.heading (max 1 (min level 6)) (Span.toInlines spans)]
  | .list ordered _ items => [.list ordered (itemsToBlocks items)]
  | .quote nodes => [.quote (listToBlocks nodes)]
  | .code info literal =>
    [.code (String.ofList (codeText literal.toList)) (language? info.toList)]
  | .rule => [.rule]
  | .table alignments rows => [tableBlock alignments rows]
  | .html literal => blocksOfHtml literal.toList

/-- The blocks of a sequence of nodes. -/
def listToBlocks : List Node → List Block
  | [] => []
  | n :: rest => toBlocks n ++ listToBlocks rest

/-- The blocks of each item. -/
def itemsToBlocks : List (List Node) → List (List Block)
  | [] => []
  | nodes :: rest => listToBlocks nodes :: itemsToBlocks rest

end

/-- The normal document of a Markdown tree. -/
def toDocument (nodes : List Node) : Document :=
  (Document.mk (listToBlocks nodes)).normalize

end Node

end Interdoc.Markdown

import Interdoc.Docx.Style
import Interdoc.Document.PlainText

/-!
# Layout

A document is written as a sequence of paragraphs and tables.  Nothing in it is nested but the
paragraphs in the cells of tables: a list is a run of numbered paragraphs, a quote a run of
paragraphs with the style of quotes, and a block of code one paragraph a line.

Each list takes a number of its own, the first one 2, so that lists that follow each other stay
apart. `Layout.lists` says for each number, in order, whether the list is numbered or bulleted.
-/

namespace Interdoc.Docx

open Interdoc (Inline Block Alignment)

/-! ### Types -/

/-- What a run shows. -/
inductive RunContent where
  | text (s : String)
  | lineBreak
  deriving DecidableEq, Repr

/-- A run of a written paragraph. -/
structure WrittenRun where
  properties : RunProperties
  content : RunContent
  deriving DecidableEq, Repr

/-- A part of a written paragraph. -/
inductive ParagraphPart where
  | run (r : WrittenRun)
  | hyperlink (target : String) (runs : List WrittenRun)
  deriving DecidableEq, Repr

/-- A place in a list: the number of the list and the level. -/
structure ListPlace where
  list : Nat
  level : Nat
  deriving DecidableEq, Repr

/-- A written paragraph. -/
structure WrittenParagraph where
  style : Option String := none
  place : Option ListPlace := none
  alignment : Option Alignment := none
  parts : List ParagraphPart := []
  deriving DecidableEq, Repr

/-- An item of the body of a written document.  A cell of a table is a sequence of paragraphs. -/
inductive LayoutItem where
  | paragraph (p : WrittenParagraph)
  | table (rows : List (List (List WrittenParagraph)))
  deriving DecidableEq, Repr

/-- The items for a part of a document, and the lists that begin in it: whether each is numbered. -/
structure Layout where
  items : List LayoutItem
  lists : List Bool
  deriving DecidableEq, Repr

/-! ### Inlines -/

/-- The formatting that inlines take from what they stand in. -/
structure Formatting where
  bold : Bool := false
  italic : Bool := false
  underline : Bool := false
  code : Bool := false
  link : Bool := false
  deriving DecidableEq, Repr

/-- The looks of a run with the formatting.  A link has the style of links whatever it holds. -/
def Formatting.properties (o : Options) (f : Formatting) : RunProperties :=
  { color := if f.link then some o.linkColor else none
    bold := f.bold
    italic := f.italic
    underline := f.underline || f.link
    font := if f.code then some o.codeFont else none
    style := if f.link then some Style.hyperlink else if f.code then some Style.codeInline
      else none }

/-- A text with spaces in place of line feeds. -/
def onOneLine (s : String) : String :=
  String.ofList (s.toList.map fun c => if c = '\n' then ' ' else c)

/-- What stands for an image, which has no file to go with it. -/
def imageText (src : String) (alt : Option String) : String :=
  "[" ++ alt.getD "image" ++ "](" ++ src ++ ")"

mutual

/-- The runs of an inline in a link.  A link in a link makes no difference. -/
def linkRuns (o : Options) (f : Formatting) : Inline → List WrittenRun
  | .strong inlines => linkRunsAmong o { f with bold := true } inlines
  | .emphasis inlines => linkRunsAmong o { f with italic := true } inlines
  | .underline inlines => linkRunsAmong o { f with underline := true } inlines
  | .link _ inlines => linkRunsAmong o f inlines
  | .text s => [⟨f.properties o, .text (onOneLine s)⟩]
  | .code s => [⟨{ f with code := true }.properties o, .text s⟩]
  | .lineBreak => [⟨f.properties o, .lineBreak⟩]
  | .image src alt => [⟨f.properties o, .text (imageText src alt)⟩]

/-- The runs of inlines in a link. -/
def linkRunsAmong (o : Options) (f : Formatting) : List Inline → List WrittenRun
  | [] => []
  | i :: rest => linkRuns o f i ++ linkRunsAmong o f rest

end

mutual

/-- The parts of a paragraph for an inline. -/
def partsOf (o : Options) (f : Formatting) : Inline → List ParagraphPart
  | .strong inlines => partsAmong o { f with bold := true } inlines
  | .emphasis inlines => partsAmong o { f with italic := true } inlines
  | .underline inlines => partsAmong o { f with underline := true } inlines
  | .link href inlines => [.hyperlink href (linkRunsAmong o { f with link := true } inlines)]
  | .text s => [.run ⟨f.properties o, .text (onOneLine s)⟩]
  | .code s => [.run ⟨{ f with code := true }.properties o, .text s⟩]
  | .lineBreak => [.run ⟨f.properties o, .lineBreak⟩]
  | .image src alt => [.run ⟨f.properties o, .text (imageText src alt)⟩]

/-- The parts of a paragraph for inlines. -/
def partsAmong (o : Options) (f : Formatting) : List Inline → List ParagraphPart
  | [] => []
  | i :: rest => partsOf o f i ++ partsAmong o f rest

end

/-! ### Tables -/

/-- The paragraph for a block in a cell: that of its inlines if it is one paragraph or a heading,
and of its plain text otherwise. -/
def cellParagraph (o : Options) (base : WrittenParagraph) : Block → WrittenParagraph
  | .paragraph inlines => { base with parts := partsAmong o {} inlines }
  | .heading _ inlines => { base with parts := partsAmong o {} inlines }
  | block => { base with parts := [.run ⟨{}, .text block.plainText⟩] }

/-- The paragraphs of a cell, of which there is at least one. -/
def cellParagraphs (o : Options) (base : WrittenParagraph) (blocks : List Block) :
    List WrittenParagraph :=
  if blocks.isEmpty then [base] else blocks.map (cellParagraph o base)

/-- A row with the given number of cells; missing cells are empty. -/
def tableRow (o : Options) (columns : Nat) (alignments : List Alignment) (isHeader : Bool)
    (cells : List (List Block)) : List (List WrittenParagraph) :=
  (List.range columns).map fun column =>
    cellParagraphs o
      { style := if isHeader then some Style.tableHeader else none
        alignment := alignments[column]? }
      ((cells[column]?).getD [])

/-- A table, all rows as long as the longest. -/
def tableItem (o : Options) (header : Option (List (List Block)))
    (rows : List (List (List Block))) (alignments : Option (List Alignment)) : LayoutItem :=
  let columns := (header.toList ++ rows).foldl (fun n row => max n row.length) 0
  let row := tableRow o columns (alignments.getD [])
  .table ((header.map (row true)).toList ++ rows.map (row false))

/-! ### Blocks -/

namespace Layout

/-- No items. -/
def empty : Layout := ⟨[], []⟩

/-- A single item. -/
def ofItem (item : LayoutItem) : Layout := ⟨[item], []⟩

/-- One layout behind another. -/
def append (a b : Layout) : Layout := ⟨a.items ++ b.items, a.lists ++ b.lists⟩

instance : Append Layout := ⟨append⟩

/-- A paragraph of inlines. -/
def paragraph (o : Options) (base : WrittenParagraph) (inlines : List Inline) : Layout :=
  ofItem (.paragraph { base with parts := partsAmong o {} inlines })

end Layout

/-- The deepest level that a list can have. -/
def deepestLevel : Nat := 8

/-- The number of the first list. -/
def firstList : Nat := 2

/-- A line of code. -/
def codeLine (o : Options) (line : List Char) : LayoutItem :=
  .paragraph
    { style := some Style.codeBlock
      parts := [.run ⟨{ font := some o.codeFont }, .text (String.ofList line)⟩] }

/-- A rule. -/
def ruleItem : LayoutItem :=
  .paragraph { style := some Style.horizontalLine, parts := [.run ⟨{}, .text ""⟩] }

mutual

/-- The layout of a block; `next` is the number of the next list, and `depth` the number of lists
around the block. -/
def layoutBlock (o : Options) (next depth : Nat) : Block → Layout
  | .paragraph inlines => .paragraph o {} inlines
  | .heading level inlines => .paragraph o { style := some (Style.heading level) } inlines
  | .list ordered items =>
    let inner := layoutItems o (next + 1) (depth + 1) ⟨next, min depth deepestLevel⟩ items
    ⟨inner.items, ordered :: inner.lists⟩
  | .quote blocks => layoutStyled o next depth Style.blockquote blocks
  | .code text _ => ⟨(Text.splitOn '\n' text.toList).map (codeLine o), []⟩
  | .rule => .ofItem ruleItem
  | .table header rows alignments => .ofItem (tableItem o header rows alignments)

/-- The layout of blocks whose paragraphs have a style. -/
def layoutStyled (o : Options) (next depth : Nat) (style : String) : List Block → Layout
  | [] => .empty
  | b :: rest =>
    let first := match b with
      | .paragraph inlines => .paragraph o { style := some style } inlines
      | b => layoutBlock o next depth b
    first ++ layoutStyled o (next + first.lists.length) depth style rest

/-- The layout of the items of a list.  The numbered paragraph of an item holds its first paragraph,
or nothing if it starts with another block. -/
def layoutItems (o : Options) (next depth : Nat) (place : ListPlace) :
    List (List Block) → Layout
  | [] => .empty
  | blocks :: rest =>
    let first := match blocks with
      | .paragraph inlines :: blocks =>
        .paragraph o { place := some place } inlines ++
          layoutStyled o next depth Style.listParagraph blocks
      | blocks =>
        .ofItem (.paragraph { place := some place }) ++
          layoutStyled o next depth Style.listParagraph blocks
    first ++ layoutItems o (next + first.lists.length) depth place rest

end

/-- The layout of the blocks of a document; `next` is the number of the next list. -/
def layoutBlocks (o : Options) (next : Nat) : List Block → Layout
  | [] => .empty
  | b :: rest =>
    let first := layoutBlock o next 0 b
    first ++ layoutBlocks o (next + first.lists.length) rest

/-- The layout of a document. -/
def Document.layout (o : Options) (d : Document) : Layout :=
  layoutBlocks o firstList d.blocks

end Interdoc.Docx

import Interdoc.Document.Normalize
import Interdoc.Latex.Inline
import Interdoc.Latex.Listing
import Interdoc.Latex.Tabular
import Interdoc.Latex.Weight

/-!
# Blocks

`Latex.parseBlocks` reads lines as blocks.  The lines of a paragraph are joined by single spaces,
except after a line break.  The body of a quote, of a list item and of an environment without a
meaning of its own is read in the same way; a quote makes a block quote and an unknown environment
is replaced by its content.  Text after a closing marker is read as if it stood on a line of its
own.

`Latex.parse` reads a whole source and gives the document in normal form.  No source is refused.

Reading ends because what is read again weighs less than the lines that hold it (`weight_lines`,
`itemsWeight_itemLines`, `segmentsWeight_segments`).
-/

namespace Interdoc.Latex

/-! ### Paragraphs -/

/-- Whether a paragraph ends with a line break. -/
def endsWithBreak (inlines : List Inline) : Bool :=
  match inlines.getLast? with
  | some .lineBreak => true
  | _ => false

/-- A paragraph with the inlines of one more line. -/
def joinLine (paragraph line : List Inline) : List Inline :=
  if paragraph.isEmpty || endsWithBreak paragraph then paragraph ++ line
  else paragraph ++ .text " " :: line

/-- A paragraph as a block, unless there is none. -/
def flush (paragraph : List Inline) : List Block :=
  if paragraph.isEmpty then [] else [.paragraph paragraph]

/-! ### Environments -/

/-- A cell of a table. -/
def cellBlocks (text : List Char) : List Block :=
  [.paragraph (tokenize text)]

/-- A table with its cells read. -/
def Tabular.block (t : Tabular) : Block :=
  .table (t.header.map (·.map cellBlocks)) (t.rows.map (·.map cellBlocks)) t.alignments

/-- A code environment as a block. -/
def Environment.code (e : Environment) : Block :=
  .code (String.ofList (Text.unlines e.codeLines)) (e.language?.map String.ofList)

/-- Whether an environment is a block quote. -/
def isQuote (name : List Char) : Bool :=
  name == "quote".toList || name == "quotation".toList

/-- Whether an environment is a list that is not numbered. -/
def isItemize (name : List Char) : Bool :=
  name == "itemize".toList

/-- Whether an environment is a numbered list. -/
def isEnumerate (name : List Char) : Bool :=
  name == "enumerate".toList

/-! ### Reading -/

mutual

/-- The blocks of a sequence of lines. -/
def parseBlocks (lines : List Line) : List Block :=
  assemble [] (segments lines)
termination_by (weight lines, 2)
decreasing_by
  have := segmentsWeight_segments lines
  simp only [Prod.lex_def]
  omega

/-- The blocks of a sequence of segments after the given paragraph. -/
def assemble (paragraph : List Inline) : List Segment → List Block
  | [] => flush paragraph
  | .text line :: segs => assemble (joinLine paragraph (tokenize line)) segs
  | .gap :: segs => flush paragraph ++ assemble [] segs
  | .heading level title :: segs =>
    flush paragraph ++ .heading level (tokenize title) :: assemble [] segs
  | .rule :: segs => flush paragraph ++ .rule :: assemble [] segs
  | .environment e :: segs => flush paragraph ++ (environmentBlocks e ++ assemble [] segs)
termination_by segs => (segmentsWeight segs, 1)
decreasing_by
  all_goals
    simp only [segmentsWeight_cons, Segment.weight, Prod.lex_def]
    omega

/-- The blocks of an environment and of what follows it on its last line. -/
def environmentBlocks (e : Environment) : List Block :=
  let blocks :=
    if isQuote e.name then [.quote (parseBlocks e.lines)]
    else if isItemize e.name then [.list false (itemBlocks (itemLines e.lines))]
    else if isEnumerate e.name then [.list true (itemBlocks (itemLines e.lines))]
    else if e.name = "tabular".toList then [e.tabular.block]
    else if isVerbatim e.name then [e.code]
    else parseBlocks e.lines
  if e.trailing.isEmpty then blocks else blocks ++ parseBlocks [e.trailing]
termination_by (e.weight, 0)
decreasing_by
  all_goals
    have h₁ := weight_lines e
    have h₂ := weight_trailing e
    have h₃ := itemsWeight_itemLines e.lines
    simp only [Prod.lex_def]
    omega

/-- The blocks of each item. -/
def itemBlocks : List (List Line) → List (List Block)
  | [] => []
  | lines :: items => parseBlocks lines :: itemBlocks items
termination_by items => (itemsWeight items, 3)
decreasing_by
  all_goals
    simp only [itemsWeight_cons, Prod.lex_def]
    omega

end

/-- The document that a source holds. -/
def parse (source : List Char) : Document :=
  (Document.mk (parseBlocks (Text.lines source))).normalize

end Interdoc.Latex

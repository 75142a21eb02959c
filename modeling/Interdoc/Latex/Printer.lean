import Interdoc.Document.PlainText
import Interdoc.Text.Blank

/-!
# Printing LaTeX

Every node has one form.  Blocks are separated by blank lines, and a block that prints nothing is
left out.  A cell of a table is a single line: its paragraphs and headings are joined by spaces, and
other blocks are reduced to their plain text.  Headings deeper than the fifth level print like those
of the fifth.
-/

namespace Interdoc.Latex

/-- How to print. -/
structure Options where
  /-- Whether to wrap the body in a complete article. -/
  standalone : Bool := false
  deriving DecidableEq, Repr

/-- What stands before the body of an article. -/
def articleHead : List Char :=
  ("\\documentclass\x7barticle\x7d\n\\usepackage\x7bhyperref\x7d\n\\usepackage\x7bgraphicx\x7d\n" ++
    "\\usepackage\x7blistings\x7d\n\\begin\x7bdocument\x7d\n\n").toList

/-- What stands after the body of an article. -/
def articleTail : List Char :=
  "\n\n\\end\x7bdocument\x7d\n".toList

/-- A command with its arguments in braces. -/
def command (name : String) (arguments : List (List Char)) : List Char :=
  '\\' :: name.toList ++ arguments.flatMap fun a => '\x7b' :: a ++ ['\x7d']

/-- A body between the markers of an environment, each on a line of its own. -/
def environment (name : String) (arguments body : List Char) : List Char :=
  command "begin" [name.toList] ++ arguments ++ '\n' :: body ++ '\n' :: command "end" [name.toList]

/-! ### Reserved characters

LaTeX gives a meaning of its own to ten characters.  `Latex.escape` writes each of them as a command
that prints it, and a line ending as a space, since an ending could close the paragraph.
-/

/-- One character of literal text as LaTeX source. -/
def escapeChar (c : Char) : List Char :=
  match c with
  | '\\' => "\\textbackslash\x7b\x7d".toList
  | '#' => ['\\', '#']
  | '$' => ['\\', '$']
  | '%' => ['\\', '%']
  | '&' => ['\\', '&']
  | '_' => ['\\', '_']
  | '\x7b' => ['\\', '\x7b']
  | '\x7d' => ['\\', '\x7d']
  | '~' => "\\textasciitilde\x7b\x7d".toList
  | '^' => "\\textasciicircum\x7b\x7d".toList
  | '\n' => [' ']
  | '\r' => [' ']
  | c => [c]

/-- Literal text as LaTeX source. -/
def escape (s : List Char) : List Char :=
  s.flatMap escapeChar

/-! ### Inlines -/

mutual

/-- An inline as LaTeX. -/
def printInline : Inline → List Char
  | .text s => escape s.toList
  | .strong inlines => command "textbf" [printInlines inlines]
  | .emphasis inlines => command "textit" [printInlines inlines]
  | .underline inlines => command "underline" [printInlines inlines]
  | .code s => command "texttt" [escape s.toList]
  | .lineBreak => "\\newline ".toList
  | .link href inlines => command "href" [escape href.toList, printInlines inlines]
  | .image src none => command "includegraphics" [escape src.toList]
  | .image src (some alt) =>
    "\\includegraphics[alt=\x7b".toList ++ escape alt.toList ++ "\x7d]\x7b".toList ++
      escape src.toList ++ ['\x7d']

/-- A sequence of inlines as LaTeX. -/
def printInlines : List Inline → List Char
  | [] => []
  | i :: rest => printInline i ++ printInlines rest

end

/-! ### Blocks -/

/-- The sectioning command for a level. -/
def headingCommand (level : Nat) : String :=
  if level ≤ 1 then "section"
  else if level = 2 then "subsection"
  else if level = 3 then "subsubsection"
  else if level = 4 then "paragraph"
  else "subparagraph"

/-- The column letter of an alignment. -/
def columnLetter : Alignment → Char
  | .left => 'l'
  | .center => 'c'
  | .right => 'r'

/-- A column specification: the given alignments, and left for further columns. -/
def columnLetters (alignments : List Alignment) (columns : Nat) : List Char :=
  alignments.map columnLetter ++ List.replicate (columns - alignments.length) 'l'

/-- The parts that are not empty, with a separator between each two. -/
def joinNonempty (sep : List Char) (parts : List (List Char)) : List Char :=
  Text.join sep (parts.filter fun p => !p.isEmpty)

/-- One block of a table cell. -/
def printCellBlock : Block → List Char
  | .paragraph inlines => printInlines inlines
  | .heading _ inlines => printInlines inlines
  | b => escape b.plainText.toList

/-- A table cell. -/
def printCell (blocks : List Block) : List Char :=
  joinNonempty [' '] (blocks.map printCellBlock)

/-- A table row. -/
def printRow (cells : List (List Block)) : List Char :=
  Text.join " & ".toList (cells.map printCell) ++ ['\\', '\\']

/-- The lines of a table with the rows that it has. -/
def printTable (header : Option (List (List Block))) (rows : List (List (List Block)))
    (alignments : Option (List Alignment)) : List Char :=
  let columns := ((header.toList ++ rows).map List.length).foldl max 1
  let head := match header with
    | some cells => ["\\hline".toList, printRow cells, "\\hline".toList]
    | none => []
  Text.join ['\n']
    ((command "begin" ["tabular".toList, columnLetters (alignments.getD []) columns]) ::
      head ++ rows.map printRow ++ [command "end" ["tabular".toList]])

/-- An item whose blocks are printed already: its first block stands on the line of the marker. -/
def printItem : List (List Char) → List Char
  | [] => "\\item".toList
  | first :: rest =>
    (if first.isEmpty then "\\item".toList else "\\item ".toList ++ first) ++
      (rest.filter fun b => !b.isEmpty).flatMap fun b => '\n' :: '\n' :: b

mutual

/-- A block as LaTeX. -/
def printBlock : Block → List Char
  | .paragraph inlines => printInlines inlines
  | .heading level inlines => command (headingCommand level) [printInlines inlines]
  | .list ordered items =>
    environment (if ordered then "enumerate" else "itemize") []
      (Text.join ['\n'] (printItems items))
  | .quote blocks => environment "quote" [] (joinNonempty ['\n', '\n'] (printEach blocks))
  | .code text none => environment "verbatim" [] text.toList
  | .code text (some language) =>
    environment "lstlisting" ("[language=".toList ++ language.toList ++ [']']) text.toList
  | .rule => "\\hrule".toList
  | .table header rows alignments => printTable header rows alignments

/-- Each of a sequence of blocks as LaTeX. -/
def printEach : List Block → List (List Char)
  | [] => []
  | b :: rest => printBlock b :: printEach rest

/-- Each item of a list as LaTeX. -/
def printItems : List (List Block) → List (List Char)
  | [] => []
  | blocks :: rest => printItem (printEach blocks) :: printItems rest

end

/-- A sequence of blocks as LaTeX. -/
def printBlocks (blocks : List Block) : List Char :=
  joinNonempty ['\n', '\n'] (printEach blocks)

/-- A document as LaTeX. -/
def print (options : Options) (d : Document) : List Char :=
  if options.standalone then articleHead ++ printBlocks d.blocks ++ articleTail
  else printBlocks d.blocks

end Interdoc.Latex

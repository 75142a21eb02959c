import Interdoc.Markdown.BlockParser
import Interdoc.Markdown.SpanParser
import Interdoc.Markdown.ToDocument

/-!
# Reading Markdown

A text is first divided into blocks; then the text of each block is read for spans, all definitions
of the text being known.  Every text is Markdown, so reading does not fail.
-/

namespace Interdoc.Markdown

namespace RawNode

mutual

/-- The node of a block.  Whether a list is tight is not noted. -/
def toNode (definitions : List LinkSource.Definition) : RawNode → Node
  | .paragraph text => .paragraph (Span.parse definitions text)
  | .heading level text => .heading level (Span.parse definitions text)
  | .list ordered items => .list ordered false (itemsToNodes definitions items)
  | .quote nodes => .quote (toNodes definitions nodes)
  | .code info literal => .code (String.ofList info) (String.ofList literal)
  | .rule => .rule
  | .table alignments rows =>
    .table alignments (rows.map fun cells => cells.map (Span.parse definitions))
  | .html literal => .html (String.ofList literal)

/-- The nodes of a sequence of blocks. -/
def toNodes (definitions : List LinkSource.Definition) : List RawNode → List Node
  | [] => []
  | n :: rest => toNode definitions n :: toNodes definitions rest

/-- The nodes of each item.  A paragraph at its start may begin with the mark of a task. -/
def itemsToNodes (definitions : List LinkSource.Definition) :
    List (List RawNode) → List (List Node)
  | [] => []
  | [] :: rest => [] :: itemsToNodes definitions rest
  | (n :: nodes) :: rest =>
    let first := match n with
      | .paragraph text => .paragraph (Span.parseInItem definitions text)
      | n => toNode definitions n
    (first :: toNodes definitions nodes) :: itemsToNodes definitions rest

end

end RawNode

/-- The Markdown tree of a text. -/
def parse (s : List Char) : List Node :=
  let (nodes, definitions) := Outline.ofText s
  RawNode.toNodes definitions nodes

/-- The document of a Markdown text. -/
def readDocument (s : List Char) : Document :=
  Node.toDocument (parse s)

end Interdoc.Markdown

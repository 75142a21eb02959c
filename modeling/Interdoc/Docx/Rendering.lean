import Interdoc.Document.Basic
import Interdoc.Docx.Body
import Interdoc.Text.Blank

/-!
# Rendering a body as HTML

The items of a body are rendered one after the other.  Consecutive lines of code form one block of
code, consecutive quotes one block quote, and numbered paragraphs nested lists.  What is still open
is a `Context`: the lines of code and the quotes that are held back, and the lists that are open,
the innermost first.

A numbered paragraph closes all deeper lists, and a list of its own level with another numbering id;
then it is the next item of the list of its level if that is open, and otherwise opens one.
-/

namespace Interdoc.Docx

open Html (Piece)

/-- An open list. -/
structure ListFrame where
  numId : String
  level : Nat
  ordered : Bool
  deriving DecidableEq, Repr

/-- What is still open between two items of a body. -/
structure Context where
  codeLines : List (List Char) := []
  quotes : List (List Piece) := []
  /-- The open lists, the innermost first. -/
  lists : List ListFrame := []

namespace Context

/-- The tag of a list. -/
def listTag (ordered : Bool) : String :=
  if ordered then "ol" else "ul"

/-- The lines of code that are held back. -/
def codePieces (lines : List (List Char)) : List Piece :=
  if lines.isEmpty then []
  else Html.element "pre" (Html.element "code" [.text (String.ofList (Text.unlines lines))])

/-- The quotes that are held back. -/
def quotePieces (quotes : List (List Piece)) : List Piece :=
  if quotes.isEmpty then [] else Html.element "blockquote" (quotes.flatMap (Html.element "p"))

/-- The lines of code and the quotes that are held back. -/
def heldBack (c : Context) : List Piece :=
  codePieces c.codeLines ++ quotePieces c.quotes

/-- The context when nothing is held back any more. -/
def released (c : Context) : Context :=
  { c with codeLines := [], quotes := [] }

/-- The end of a list. -/
def closeList (frame : ListFrame) : List Piece :=
  [.finish "li", .finish (listTag frame.ordered)]

/-- The ends of all open lists. -/
def closeLists (c : Context) : List Piece :=
  c.lists.flatMap closeList

/-- Closes the lists that a numbered paragraph ends, and gives those that stay open. -/
def closeFor (numId : String) (level : Nat) : List ListFrame → List Piece × List ListFrame
  | [] => ([], [])
  | frame :: outer =>
    if frame.level > level || (frame.level = level && frame.numId != numId) then
      let (pieces, rest) := closeFor numId level outer
      (closeList frame ++ pieces, rest)
    else ([], frame :: outer)

/-- A numbered paragraph. -/
def listItem (p : Package) (c : Context) (numId level : String) (content : List Piece) :
    List Piece × Context :=
  let depth := levelNumber level
  let (closing, lists) := closeFor numId depth c.lists
  let isNext := (lists.head?.map fun frame => frame.level == depth).getD false
  let ordered := p.isOrdered numId level
  let opening : List Piece :=
    if isNext then [.finish "li", .start "li" []]
    else [.start (listTag ordered) [], .start "li" []]
  (c.heldBack ++ closing ++ opening ++ Html.element "p" content,
    { lists := if isNext then lists else ⟨numId, depth, ordered⟩ :: lists })

/-- A block that stands on its own closes everything. -/
def standalone (c : Context) (pieces : List Piece) : List Piece × Context :=
  (c.heldBack ++ c.closeLists ++ pieces, {})

/-- A line of code, held back. -/
def codeLine (c : Context) (line : List Char) : List Piece × Context :=
  if c.quotes.isEmpty then
    (c.closeLists, { c with codeLines := c.codeLines ++ [line], lists := [] })
  else (c.heldBack ++ c.closeLists, { codeLines := [line] })

/-- A quote, held back. -/
def quote (c : Context) (content : List Piece) : List Piece × Context :=
  if c.codeLines.isEmpty then
    (c.closeLists, { c with quotes := c.quotes ++ [content], lists := [] })
  else (c.heldBack ++ c.closeLists, { quotes := [content] })

/-- A paragraph of no special kind, or a heading or rule. -/
def simplePieces (kind : ParagraphKind) (content : List Piece) : List Piece :=
  match kind with
  | .heading level => Html.element ("h" ++ toString level) content
  | .rule => [.void "hr" []]
  | _ => Html.element "p" content

/-- A paragraph that is not numbered. -/
def unnumbered (c : Context) (q : Paragraph) : List Piece × Context :=
  match q.kind with
  | .code => c.codeLine q.codeLine
  | .quote => c.quote q.content
  | .continuation =>
    if c.lists.isEmpty then c.standalone (Html.element "p" q.content)
    else (c.heldBack ++ Html.element "p" q.content, c.released)
  | kind => c.standalone (simplePieces kind q.content)

/-- One item of a body. -/
def step (p : Package) (c : Context) : BodyItem → List Piece × Context
  | .table pieces => c.standalone pieces
  | .paragraph q =>
    match q.numbering? with
    | some (numId, level) => c.listItem p numId level q.content
    | none => c.unnumbered q

/-- The items of a body, and the end of all that is open after them. -/
def render (p : Package) (c : Context) : List BodyItem → List Piece
  | [] => c.heldBack ++ c.closeLists
  | item :: rest =>
    let (pieces, c) := c.step p item
    pieces ++ c.render p rest

end Context

/-- The HTML of a package, as pieces. -/
def Package.pieces (p : Package) : List Piece :=
  Context.render p {} (bodyItems p)

/-- The HTML of a package. -/
def Package.html (p : Package) : List Char :=
  Html.render p.pieces

/-! ### Plain text -/

/-- The text of a package, the text of each paragraph on a line of its own. -/
def Package.rawText (p : Package) : List Char :=
  Text.unlines ((p.document.descendants "p").map fun paragraph =>
    (paragraph.descendants "t").flatMap fun t => t.ownText.toList)

/-- One paragraph for each line that is not blank. -/
def plainDocument (s : List Char) : Document :=
  ⟨((Text.lines s).filter fun line => !Text.isBlank line).map fun line =>
    .paragraph [.text (String.ofList line)]⟩

end Interdoc.Docx

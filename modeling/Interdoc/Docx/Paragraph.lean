import Interdoc.Docx.Run

/-!
# Paragraphs

A paragraph of a package has a kind, which its style decides, possibly a place in a list, and a
content.  The content is given as HTML, and also as the plain text that it has if the paragraph is a
line of code.
-/

namespace Interdoc.Docx

open Html (Piece)

/-- What the style of a paragraph makes of it. -/
inductive ParagraphKind where
  | normal
  | heading (level : Nat)
  | code
  | quote
  | rule
  /-- A further paragraph of a list item. -/
  | continuation
  deriving DecidableEq, Repr

/-- A paragraph as a reader sees it. -/
structure Paragraph where
  kind : ParagraphKind
  /-- The numbering id and the level of a list item. -/
  numbering? : Option (String × String)
  content : List Piece
  /-- The text of a line of code. -/
  codeLine : List Char

/-! ### Numbers -/

/-- The value of digits, of which there is at least one; a plus sign may stand before them. -/
def unsigned? (s : List Char) : Option Nat :=
  let digits := match s with
    | '+' :: rest => rest
    | _ => s
  if digits.isEmpty || !digits.all Char.isDigit then none
  else some (digits.foldl (fun n c => 10 * n + (c.toNat - 48)) 0)

/-- A number that fits into 64 bits, and zero for everything else. -/
def levelNumber (s : String) : Nat :=
  match unsigned? s.toList with
  | some n => if n < Nat.pow 2 64 then n else 0
  | none => 0

/-! ### Kinds -/

/-- The level of a heading style: a number of eight bits, brought into the range from 1 to 6. -/
def headingLevel? (style : List Char) : Option Nat :=
  match Text.stripPrefix? "heading".toList style with
  | some rest =>
    match unsigned? (Text.trim rest) with
    | some n => if n < 256 then some (min (max n 1) 6) else none
    | none => none
  | none => none

/-- The kind that a style stands for, in any case of its letters. -/
def ParagraphKind.ofStyle (style : String) : ParagraphKind :=
  let lower := Text.toLower style.toList
  match headingLevel? lower with
  | some level => .heading level
  | none =>
    if lower = "codeblock".toList || lower = "sourcecode".toList then .code
    else if lower = "quote".toList || lower = "blockquote".toList then .quote
    else if lower = "horizontalline".toList then .rule
    else if lower = "listparagraph".toList then .continuation
    else .normal

/-- The style of a paragraph. -/
def styleOf (paragraph : Xml.Node) : String :=
  (paragraph.pathValue? ["pPr", "pStyle"]).getD ""

/-- The place of a paragraph in a list; the numbering id `0` takes it out of all lists. -/
def numberingOf? (paragraph : Xml.Node) : Option (String × String) := do
  let properties ← paragraph.path? ["pPr", "numPr"]
  let numId ← properties.pathValue? ["numId"]
  if numId = "0" then none
  else return (numId, (properties.pathValue? ["ilvl"]).getD "0")

/-! ### Content -/

/-- The target of a hyperlink: that of its relationship, or else its anchor. -/
def hyperlinkTarget (p : Package) (link : Xml.Node) : String :=
  match (link.attribute? "id").bind p.target? with
  | some target => target
  | none =>
    match link.attribute? "anchor" with
    | some anchor => "#" ++ anchor
    | none => ""

/-- The pieces of the parts of a paragraph after segments that are not rendered yet.  A hyperlink
ends the sequence of segments before it. -/
def contentFrom (p : Package) (pending : List Segment) : List Xml.Node → List Piece
  | [] => renderSegments pending
  | node :: rest =>
    if node.isNamed "hyperlink" then
      renderSegments pending ++
        .start "a" [("href", hyperlinkTarget p node)] ::
          renderSegments (segmentsAmong p true node.children) ++
        .finish "a" :: contentFrom p [] rest
    else contentFrom p (pending ++ segmentsOf p false node) rest

/-- The content of a paragraph. -/
def contentOf (p : Package) (paragraph : Xml.Node) : List Piece :=
  contentFrom p [] paragraph.children

/-- The text that escaped text with line break tags stands for: the tags and the references are
replaced one kind after the other, the ampersand last. -/
def unescapeCode (s : List Char) : List Char :=
  let s := Text.replace "<br>".toList ['\n'] s
  let s := Text.replace "&lt;".toList ['<'] s
  let s := Text.replace "&gt;".toList ['>'] s
  let s := Text.replace "&quot;".toList ['"'] s
  Text.replace "&amp;".toList ['&'] s

/-- The text of a paragraph as a line of code: no formatting, and all runs alike. -/
def codeLineOf (p : Package) (paragraph : Xml.Node) : List Char :=
  unescapeCode (Html.render ((segmentsAmong p false paragraph.children).map Segment.piece))

/-- A paragraph of a package. -/
def Paragraph.ofNode (p : Package) (node : Xml.Node) : Paragraph :=
  { kind := .ofStyle (styleOf node)
    numbering? := numberingOf? node
    content := contentOf p node
    codeLine := codeLineOf p node }

end Interdoc.Docx

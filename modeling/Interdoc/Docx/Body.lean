import Interdoc.Docx.Paragraph

/-!
# The body of a document

The body is a sequence of paragraphs and tables.  Content controls, tracked insertions and custom
markup around them are looked through, everything else is passed over.  A table is rendered here,
since nothing around it matters to it; paragraphs are rendered in their context.
-/

namespace Interdoc.Docx

open Html (Piece)

/-- An item of a body. -/
inductive BodyItem where
  | paragraph (p : Paragraph)
  | table (pieces : List Piece)

/-! ### Tables -/

/-- The style value for the justification of a paragraph. -/
def justification? (s : String) : Option String :=
  if s = "left" || s = "start" then some "left"
  else if s = "center" then some "center"
  else if s = "right" || s = "end" then some "right"
  else none

/-- Whether a row is a header row: by a property of its own, or by the style of a paragraph in it.
-/
def isHeaderRow (row : Xml.Node) : Bool :=
  (row.path? ["trPr", "tblHeader"]).isSome ||
    (row.descendants "p").any fun p => Text.sameLetters (styleOf p).toList "TableHeader".toList

/-- A cell; its alignment is that of its first paragraph. -/
def cellPieces (p : Package) (tag : String) (cell : Xml.Node) : List Piece :=
  let paragraphs := cell.childrenNamed "p"
  let alignment :=
    (paragraphs.head?.bind fun first => first.pathValue? ["pPr", "jc"]).bind justification?
  let attributes := match alignment with
    | some a => [("style", "text-align:" ++ a)]
    | none => []
  .start tag attributes ::
    (paragraphs.flatMap fun q => Html.element "p" (contentOf p q)) ++ [.finish tag]

/-- A row. -/
def rowPieces (p : Package) (row : Xml.Node) : List Piece :=
  let tag := if isHeaderRow row then "th" else "td"
  Html.element "tr" ((row.childrenNamed "tc").flatMap (cellPieces p tag))

/-- A table. -/
def tablePieces (p : Package) (table : Xml.Node) : List Piece :=
  Html.element "table" ((table.childrenNamed "tr").flatMap (rowPieces p))

/-! ### Items -/

mutual

/-- The items of a node of a body. -/
def itemsOf (p : Package) : Xml.Node → List BodyItem
  | .text _ => []
  | .element name attributes children =>
    if name = "p" then [.paragraph (.ofNode p (.element name attributes children))]
    else if name = "tbl" then [.table (tablePieces p (.element name attributes children))]
    else if name = "sdt" then controlItems p children
    else if name = "ins" || name = "customXml" then itemsAmong p children
    else []

/-- The items of nodes of a body. -/
def itemsAmong (p : Package) : List Xml.Node → List BodyItem
  | [] => []
  | node :: rest => itemsOf p node ++ itemsAmong p rest

/-- The items in the first content element of a content control. -/
def controlItems (p : Package) : List Xml.Node → List BodyItem
  | [] => []
  | .text _ :: rest => controlItems p rest
  | .element name _ children :: rest =>
    if name = "sdtContent" then itemsAmong p children else controlItems p rest

end

/-- The items of the document of a package. -/
def bodyItems (p : Package) : List BodyItem :=
  match p.document.child? "body" with
  | some body => itemsAmong p body.children
  | none => []

end Interdoc.Docx

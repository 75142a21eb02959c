import Interdoc.Docx.Layout
import Interdoc.Docx.Package
import Interdoc.Xml.Markup
import Interdoc.Zip.Archive

/-!
# Writing packages

A layout is written into the parts of a package: the paragraphs and tables of the document, the
targets of its links, which are numbered in the order in which they occur, and the numbering of its
lists.
-/

namespace Interdoc.Docx

open Xml (Markup)

/-! ### Paragraphs -/

/-- A run. -/
def WrittenRun.markup (r : WrittenRun) : Markup :=
  .group "w:r"
    [r.properties.markup,
     match r.content with
     | .text s => .element "w:t" [("xml:space", "preserve".toList)] [.text (Xml.escape s.toList)]
     | .lineBreak => .leaf "w:br" [("w:type", "textWrapping")]]

/-- The id of a link, by its number. -/
def linkId (n : Nat) : String := "link" ++ toString n

/-- The targets of the links in parts of a paragraph. -/
def linkTargets (parts : List ParagraphPart) : List String :=
  parts.filterMap fun part => match part with
    | .hyperlink target _ => some target
    | .run _ => none

/-- The parts of a paragraph; the number is that of the next link. -/
def partsMarkup (next : Nat) : List ParagraphPart → List Markup
  | [] => []
  | .run r :: rest => r.markup :: partsMarkup next rest
  | .hyperlink _ runs :: rest =>
    .element "w:hyperlink" [("r:id", (linkId next).toList), ("w:history", ['1'])]
      (runs.map WrittenRun.markup) :: partsMarkup (next + 1) rest

/-- The place of a paragraph in a list. -/
def ListPlace.markup (p : ListPlace) : Markup :=
  .group "w:numPr"
    [.leaf "w:numId" [("w:val", toString p.list)], .leaf "w:ilvl" [("w:val", toString p.level)]]

/-- A paragraph; the number is that of the next link. -/
def WrittenParagraph.markup (next : Nat) (p : WrittenParagraph) : Markup :=
  .group "w:p"
    (.group "w:pPr"
      (.group "w:rPr" [] :: (p.style.map fun s => Markup.leaf "w:pStyle" [("w:val", s)]).toList ++
        (p.place.map ListPlace.markup).toList ++
        (p.alignment.map fun a => Markup.leaf "w:jc" [("w:val", a.name)]).toList) ::
      partsMarkup next p.parts)

/-! ### Tables -/

/-- The paragraphs of a cell. -/
def paragraphsMarkup (next : Nat) : List WrittenParagraph → List Markup
  | [] => []
  | p :: rest => p.markup next :: paragraphsMarkup (next + (linkTargets p.parts).length) rest

/-- The targets of the links in a cell. -/
def cellTargets (cell : List WrittenParagraph) : List String :=
  cell.flatMap fun p => linkTargets p.parts

/-- The cells of a row. -/
def cellsMarkup (next : Nat) : List (List WrittenParagraph) → List Markup
  | [] => []
  | cell :: rest =>
    .group "w:tc" (.group "w:tcPr" [] :: paragraphsMarkup next cell) ::
      cellsMarkup (next + (cellTargets cell).length) rest

/-- The targets of the links in a row. -/
def rowTargets (row : List (List WrittenParagraph)) : List String :=
  row.flatMap cellTargets

/-- The rows of a table. -/
def rowsMarkup (next : Nat) : List (List (List WrittenParagraph)) → List Markup
  | [] => []
  | row :: rest =>
    .group "w:tr" (.group "w:trPr" [] :: cellsMarkup next row) ::
      rowsMarkup (next + (rowTargets row).length) rest

/-- A thin line on one side of the cells of a table. -/
def borderMarkup (side : String) : Markup :=
  .leaf ("w:" ++ side)
    [("w:val", "single"), ("w:sz", "2"), ("w:space", "0"), ("w:color", "000000")]

/-- The looks of a table. -/
def tableProperties : Markup :=
  .group "w:tblPr"
    [.leaf "w:tblW" [("w:w", "0"), ("w:type", "auto")],
     .leaf "w:jc" [("w:val", "left")],
     .group "w:tblBorders"
      (["top", "left", "bottom", "right", "insideH", "insideV"].map borderMarkup)]

/-- The targets of the links in an item. -/
def LayoutItem.targets : LayoutItem → List String
  | .paragraph p => linkTargets p.parts
  | .table rows => rows.flatMap rowTargets

/-- An item of a body; the number is that of the next link. -/
def LayoutItem.markup (next : Nat) : LayoutItem → Markup
  | .paragraph p => p.markup next
  | .table rows =>
    .group "w:tbl" (tableProperties :: .group "w:tblGrid" [] :: rowsMarkup next rows)

/-- The items of a body; the number is that of the next link. -/
def itemsMarkup (next : Nat) : List LayoutItem → List Markup
  | [] => []
  | item :: rest => item.markup next :: itemsMarkup (next + item.targets.length) rest

/-! ### Numbering -/

/-- The mark of a level of a bulleted list. -/
def bullet (level : Nat) : String :=
  match level % 3 with
  | 0 => "•"
  | 1 => "○"
  | _ => "▪"

/-- A level of a list. -/
def levelMarkup (ordered : Bool) (level : Nat) : Markup :=
  let text := if ordered then "%" ++ toString (level + 1) ++ "." else bullet level
  .element "w:lvl" [("w:ilvl", (toString level).toList)]
    [.leaf "w:start" [("w:val", "1")],
     .leaf "w:numFmt" [("w:val", if ordered then "decimal" else "bullet")],
     .leaf "w:lvlText" [("w:val", text)],
     .leaf "w:lvlJc" [("w:val", "left")],
     .group "w:pPr"
      [.group "w:rPr" [], indentMarkup (720 * (level + 1)) (some (if ordered then 420 else 360))],
     .group "w:rPr" []]

/-- The levels of a list. -/
def definitionMarkup (number : Nat) (ordered : Bool) : Markup :=
  .element "w:abstractNum" [("w:abstractNumId", (toString number).toList)]
    ((List.range (deepestLevel + 1)).map (levelMarkup ordered))

/-- A list with the levels of the same number. -/
def numberMarkup (number : Nat) : Markup :=
  .element "w:num" [("w:numId", (toString number).toList)]
    [.leaf "w:abstractNumId" [("w:val", toString number)]]

namespace Layout

/-- The numbers of the lists. -/
def listNumbers (l : Layout) : List Nat :=
  (List.range l.lists.length).map (· + firstList)

/-- The numbering of the lists. -/
def numberingMarkup (l : Layout) : List Markup :=
  (l.listNumbers.zip l.lists).map (fun (n, ordered) => definitionMarkup n ordered) ++
    l.listNumbers.map numberMarkup

/-- The items of the body. -/
def bodyMarkup (l : Layout) : List Markup :=
  itemsMarkup 1 l.items

/-- The targets of all links, in the order of their numbers. -/
def targets (l : Layout) : List String :=
  l.items.flatMap LayoutItem.targets

/-! ### Parts -/

/-- The vocabulary of documents. -/
def mainSpace : String := "http://schemas.openxmlformats.org/wordprocessingml/2006/main"

/-- The vocabulary of references between parts. -/
def relationshipSpace : String :=
  "http://schemas.openxmlformats.org/officeDocument/2006/relationships"

/-- The vocabulary of relationship parts. -/
def relationshipPartSpace : String :=
  "http://schemas.openxmlformats.org/package/2006/relationships"

/-- The part with the document. -/
def documentMarkup (l : Layout) : Markup :=
  .element "w:document" [("xmlns:w", mainSpace.toList), ("xmlns:r", relationshipSpace.toList)]
    [.group "w:body" (l.bodyMarkup ++ [.group "w:sectPr" []])]

/-- The relationship for a link. -/
def relationshipMarkup (number : Nat) (target : String) : Markup :=
  .leaf "Relationship"
    [("Id", linkId number), ("Type", relationshipSpace ++ "/hyperlink"), ("Target", target),
     ("TargetMode", "External")]

/-- The part with the relationships. -/
def relationshipsMarkup (l : Layout) : Markup :=
  .element "Relationships" [("xmlns", relationshipPartSpace.toList)]
    ((List.range l.targets.length).zip l.targets |>.map fun (i, target) =>
      relationshipMarkup (i + 1) target)

/-- The part with the numbering. -/
def numberingPartMarkup (l : Layout) : Markup :=
  .element "w:numbering" [("xmlns:w", mainSpace.toList)] l.numberingMarkup

/-- The package with a layout in it. -/
def package? (l : Layout) : Except Xml.Fault Package := do
  return { document := ← l.documentMarkup.node?
           relationships := Package.relationshipsOf (← l.relationshipsMarkup.node?)
           numbering := Package.numberingOf (← l.numberingPartMarkup.node?) }

end Layout

/-! ### Content types

A package says of what type each of its parts is: by the extension of its name, or by the name
itself if the type is a special one.  The list covers all parts that packages of this kind have, and
the extensions of the usual images; it is the same for every document.
-/

namespace ContentTypes

/-- The types of parts by their extensions. -/
def byExtension : List (String × String) :=
  [("png", "image/png"), ("jpeg", "image/jpeg"), ("jpg", "image/jpg"), ("bmp", "image/bmp"),
   ("gif", "image/gif"), ("rels", "application/vnd.openxmlformats-package.relationships+xml"),
   ("xml", "application/xml")]

/-- The types of parts that belong to the package as a whole. -/
def ofPackage : List (String × String) :=
  [("/_rels/.rels", "application/vnd.openxmlformats-package.relationships+xml"),
   ("/docProps/app.xml", "application/vnd.openxmlformats-officedocument.extended-properties+xml"),
   ("/docProps/core.xml", "application/vnd.openxmlformats-package.core-properties+xml"),
   ("/docProps/custom.xml", "application/vnd.openxmlformats-officedocument.custom-properties+xml"),
   ("/word/_rels/document.xml.rels", "application/vnd.openxmlformats-package.relationships+xml")]

/-- A part of the document with its type. -/
def ofDocument (part kind : String) : String × String :=
  ("/word/" ++ part ++ ".xml",
    "application/vnd.openxmlformats-officedocument.wordprocessingml." ++ kind ++ "+xml")

/-- The types of parts by their names. -/
def byName : List (String × String) :=
  ofPackage ++
    [ofDocument "comments" "comments", ofDocument "commentsExtended" "commentsExtended",
     ofDocument "document" "document.main", ofDocument "fontTable" "fontTable",
     ofDocument "footnotes" "footnotes", ofDocument "numbering" "numbering",
     ofDocument "settings" "settings", ofDocument "styles" "styles"]

/-- The part with the types. -/
def markup : Markup :=
  .element "Types"
    [("xmlns", "http://schemas.openxmlformats.org/package/2006/content-types".toList)]
    ((byExtension.map fun (extension, type) =>
        .leaf "Default" [("Extension", extension), ("ContentType", type)]) ++
      byName.map fun (name, type) =>
        .leaf "Override" [("PartName", name), ("ContentType", type)])

end ContentTypes

/-! ### Packages -/

/-- The part with the style sheet. -/
def stylesMarkup (o : Options) : Markup :=
  .element "w:styles" [("xmlns:w", Layout.mainSpace.toList)] ((styles o).map Style.markup)

/-- The part that says which part of the package holds the document. -/
def packageRelationshipsMarkup : Markup :=
  .element "Relationships" [("xmlns", Layout.relationshipPartSpace.toList)]
    [.leaf "Relationship"
      [("Id", "rId1"), ("Type", Layout.relationshipSpace ++ "/officeDocument"),
       ("Target", Package.documentPart)]]

/-- A folder of a package. -/
def folder (name : String) : Zip.File :=
  ⟨Utf8.encode name.toList, []⟩

/-- A part of a package. -/
def partFile (name : String) (root : Markup) : Zip.File :=
  ⟨Utf8.encode name.toList, Utf8.encode root.printDocument⟩

/-- The octets of the package for a document.  The folders and the types of the parts come first. -/
def write (o : Options) (d : Document) : Zip.Bytes :=
  let l := Document.layout o d
  Zip.encode
    [folder "word/", folder "word/_rels/", folder "_rels/", folder "docProps/",
     partFile "[Content_Types].xml" ContentTypes.markup,
     partFile "_rels/.rels" packageRelationshipsMarkup,
     partFile Package.documentPart l.documentMarkup,
     partFile Package.relationshipsPart l.relationshipsMarkup,
     partFile Package.numberingPart l.numberingPartMarkup,
     partFile "word/styles.xml" (stylesMarkup o)]

end Interdoc.Docx

import Interdoc.Xml.Markup

/-!
# Styles

Written packages name what a paragraph or a run is by its style, and readers find it by the same
name.  The style sheet gives these names their looks.
-/

namespace Interdoc.Docx

open Xml (Markup)

/-- Choices in the looks of written packages. -/
structure Options where
  /-- The font of code. -/
  codeFont : String
  /-- The colour of links, in hexadecimal; it is written as it stands. -/
  linkColor : String
  deriving DecidableEq, Repr, Inhabited

/-- The usual looks. -/
def Options.standard : Options := ⟨"Courier New", "1155CC"⟩

namespace Style

/-! ### Names -/

/-- The style of lines of code. -/
def codeBlock : String := "CodeBlock"

/-- The style of quotes. -/
def blockquote : String := "Blockquote"

/-- The style of rules. -/
def horizontalLine : String := "HorizontalLine"

/-- The style of the header cells of tables. -/
def tableHeader : String := "TableHeader"

/-- The style of the further paragraphs of list items. -/
def listParagraph : String := "ListParagraph"

/-- The style of code in a line of text. -/
def codeInline : String := "CodeInline"

/-- The style of links. -/
def hyperlink : String := "Hyperlink"

/-- The style of headings; levels out of range take the nearest style. -/
def heading (level : Nat) : String :=
  "Heading" ++ toString (min (max level 1) 6)

end Style

/-! ### Properties of runs -/

/-- How a run looks. -/
structure RunProperties where
  /-- In half points. -/
  size : Option Nat := none
  color : Option String := none
  bold : Bool := false
  italic : Bool := false
  underline : Bool := false
  font : Option String := none
  style : Option String := none
  deriving DecidableEq, Repr, Inhabited

namespace RunProperties

/-- A property that is either there or not. -/
def switch (name : String) (isOn : Bool) : List Markup :=
  if isOn then [.leaf name []] else []

/-- A property with a value. -/
def valued (name : String) (value : Option String) : List Markup :=
  match value with
  | some v => [.leaf name [("w:val", v)]]
  | none => []

/-- One font for all scripts. -/
def fontMarkup (font : String) : Markup :=
  .leaf "w:rFonts" [("w:ascii", font), ("w:hAnsi", font), ("w:cs", font), ("w:eastAsia", font)]

/-- The properties as markup. -/
def markup (p : RunProperties) : Markup :=
  .group "w:rPr"
    (valued "w:sz" (p.size.map toString) ++ valued "w:szCs" (p.size.map toString) ++
      (p.color.map fun c => Markup.element "w:color" [("w:val", c.toList)] []).toList ++
      switch "w:b" p.bold ++ switch "w:bCs" p.bold ++ switch "w:i" p.italic ++
      switch "w:iCs" p.italic ++ valued "w:u" (if p.underline then some "single" else none) ++
      (p.font.map fontMarkup).toList ++ valued "w:rStyle" p.style)

end RunProperties

/-! ### The style sheet -/

/-- A style: its name in packages, its name for people, and its looks. -/
structure Style where
  kind : String
  id : String
  name : String
  run : RunProperties := {}
  /-- Whether paragraphs are indented. -/
  isIndented : Bool := false

/-- An indent from the left, in twentieths of a point. -/
def indentMarkup (left : Nat) (hanging : Option Nat) : Markup :=
  .leaf "w:ind" ([("w:left", toString left), ("w:right", "0")] ++
    (hanging.map fun h => ("w:hanging", toString h)).toList)

/-- The markup of a style. -/
def Style.markup (s : Style) : Markup :=
  .element "w:style" [("w:type", s.kind.toList), ("w:styleId", s.id.toList)]
    [.leaf "w:name" [("w:val", s.name)],
     s.run.markup,
     .group "w:pPr" (.group "w:rPr" [] :: if s.isIndented then [indentMarkup 720 none] else []),
     .group "w:qFormat" []]

/-- The styles of a written package. -/
def styles (o : Options) : List Style :=
  [{ kind := "paragraph", id := "Normal", name := "Normal" },
   { kind := "paragraph", id := "Heading1", name := "Heading 1"
     run := { size := some 32, bold := true } },
   { kind := "paragraph", id := "Heading2", name := "Heading 2"
     run := { size := some 28, bold := true } },
   { kind := "paragraph", id := "Heading3", name := "Heading 3"
     run := { size := some 26, bold := true } },
   { kind := "paragraph", id := "Heading4", name := "Heading 4"
     run := { size := some 24, bold := true } },
   { kind := "paragraph", id := "Heading5", name := "Heading 5"
     run := { size := some 22, bold := true } },
   { kind := "paragraph", id := "Heading6", name := "Heading 6"
     run := { size := some 20, bold := true } },
   { kind := "paragraph", id := Style.codeBlock, name := "Code Block"
     run := { size := some 18, font := some o.codeFont } },
   { kind := "paragraph", id := Style.blockquote, name := "Block Quote"
     run := { italic := true }, isIndented := true },
   { kind := "paragraph", id := Style.horizontalLine, name := "Horizontal Line" },
   { kind := "paragraph", id := Style.tableHeader, name := "Table Header"
     run := { bold := true } },
   { kind := "paragraph", id := Style.listParagraph, name := "List Paragraph"
     isIndented := true },
   { kind := "character", id := Style.codeInline, name := "Code Inline"
     run := { size := some 18, font := some o.codeFont } },
   { kind := "character", id := Style.hyperlink, name := "Hyperlink"
     run := { color := some o.linkColor, underline := true } }]

/-- The style sheet, without what is around it. -/
def stylesText (o : Options) : List Char :=
  Markup.printAll ((styles o).map Style.markup)

end Interdoc.Docx

import Interdoc.Docx.Package
import Interdoc.Html.Piece
import Interdoc.Text.Blank

/-!
# Runs

The content of a paragraph is a sequence of runs, some of them inside hyperlinks and other wrappers.
Each run formats the texts, tabs, breaks and images in it alike.  A run is bold or italic by its
properties or by a named style, and code by a named style or by a monospaced font.

`renderSegments` turns formatted segments into HTML with as few tags as possible: the elements that
two neighbours share from the outside in stay open between them.
-/

namespace Interdoc.Docx

open Html (Piece)

/-! ### Formats -/

/-- The formatting of a run. -/
structure RunFormat where
  bold : Bool
  italic : Bool
  underline : Bool
  code : Bool
  deriving DecidableEq, Repr

namespace RunFormat

/-- The elements for a format, from the outermost to the innermost. -/
def tags (f : RunFormat) : List String :=
  (if f.bold then ["strong"] else []) ++ (if f.italic then ["em"] else []) ++
    (if f.underline then ["u"] else []) ++ (if f.code then ["code"] else [])

/-- Whether a property is there and not switched off. -/
def isOn (property : Option Xml.Node) : Bool :=
  match property with
  | none => false
  | some p => !(["0", "false", "off", "none"].contains ((p.attribute? "val").getD "on"))

/-- Parts of the names of monospaced fonts, in lower case. -/
def monospaceNames : List (List Char) :=
  ["courier".toList, "consolas".toList, "mono".toList, "menlo".toList]

/-- Whether a font is monospaced, by its name. -/
def isMonospace (font : String) : Bool :=
  monospaceNames.any fun part => Text.contains part (Text.toLower font.toList)

/-- The styles of code. -/
def codeStyles : List (List Char) :=
  ["codeinline".toList, "verbatimchar".toList, "sourcecode".toList]

/-- The format of a run.  Links are underlined for display only, so the underline does not count
inside a hyperlink. -/
def ofRun (run : Xml.Node) (inLink : Bool) : RunFormat :=
  let property (name : String) : Option Xml.Node := run.path? ["rPr", name]
  let style := Text.toLower ((run.pathValue? ["rPr", "rStyle"]).getD "").toList
  let font := ((property "rFonts").bind (·.attribute? "ascii")).getD ""
  { bold := isOn (property "b") || style == "strong".toList
    italic := isOn (property "i") || style == "emphasis".toList
    underline := isOn (property "u") && !inLink
    code := codeStyles.contains style || isMonospace font }

end RunFormat

/-! ### Segments -/

/-- A formatted piece of a paragraph. -/
structure Segment where
  format : RunFormat
  piece : Piece
  deriving DecidableEq, Repr

/-- The image in a drawing, if its relationship has a target. -/
def image? (p : Package) (drawing : Xml.Node) : Option Piece := do
  let blip ← (drawing.descendants "blip").head?
  let src ← p.target? (← blip.attribute? "embed")
  let alt := ((drawing.descendants "docPr").head?.bind (·.attribute? "descr")).getD ""
  return .void "img" [("src", src), ("alt", alt)]

/-- What a part of a run shows. -/
def runPiece? (p : Package) (part : Xml.Node) : Option Piece :=
  match part with
  | .text _ => none
  | .element name _ _ =>
    if name = "t" then some (.text part.ownText)
    else if name = "tab" then some (.text "\t")
    else if name = "br" || name = "cr" then
      if (part.attribute? "type").getD "textWrapping" = "textWrapping" then some (.void "br" [])
      else none
    else if name = "drawing" || name = "pict" then image? p part
    else none

/-- The segments of a run. -/
def runSegments (p : Package) (run : Xml.Node) (inLink : Bool) : List Segment :=
  (run.children.filterMap (runPiece? p)).map fun piece => ⟨.ofRun run inLink, piece⟩

mutual

/-- The segments of a part of a paragraph: those of a run, and of all runs inside a wrapper. -/
def segmentsOf (p : Package) (inLink : Bool) : Xml.Node → List Segment
  | .text _ => []
  | .element name attributes children =>
    if name = "r" then runSegments p (.element name attributes children) inLink
    else if name = "pPr" || name = "rPr" then []
    else segmentsAmong p inLink children

/-- The segments of parts of a paragraph. -/
def segmentsAmong (p : Package) (inLink : Bool) : List Xml.Node → List Segment
  | [] => []
  | node :: rest => segmentsOf p inLink node ++ segmentsAmong p inLink rest

end

/-! ### Rendering -/

/-- The number of elements that two lists share at their start. -/
def commonLength : List String → List String → Nat
  | a :: as, b :: bs => if a = b then commonLength as bs + 1 else 0
  | _, _ => 0

/-- The end tags of open elements, of which the outermost comes first. -/
def closeTags (opened : List String) : List Piece :=
  opened.reverse.map .finish

/-- The start tags of elements. -/
def openTags (tags : List String) : List Piece :=
  tags.map fun tag => .start tag []

/-- The pieces of segments, where the given elements are open, the outermost first. -/
def renderSegmentsFrom (opened : List String) : List Segment → List Piece
  | [] => closeTags opened
  | s :: rest =>
    let tags := s.format.tags
    let common := commonLength opened tags
    closeTags (opened.drop common) ++ openTags (tags.drop common) ++
      s.piece :: renderSegmentsFrom tags rest

/-- The pieces of segments. -/
def renderSegments (segments : List Segment) : List Piece :=
  renderSegmentsFrom [] segments

end Interdoc.Docx

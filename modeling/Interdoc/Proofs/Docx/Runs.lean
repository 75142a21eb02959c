import Interdoc.Docx.Run
import Interdoc.Docx.Writer
import Interdoc.Proofs.Xml.Meaning

/-!
# Written runs

The tree of a written run (`WrittenRun.node`), and what a reader makes of it: one segment, whose
format is a function of the properties of the run (`RunProperties.format`) and whose piece is one of
its content.  A colour is written as it stands, so only a run whose colour is without references has
a tree for certain.
-/

namespace Interdoc.Docx

open Html (Piece)
open Xml (Node unbroken)
open Xml.Markup (Means localOf mapM_value?_plain means_leaf means_group means_element
  means_textElement)

/-! ### Properties -/

namespace RunProperties

/-- The node of a property, if it is there, with its attributes. -/
def propertyNodes (name : String) (attributes : Option (List (String × String))) : List Node :=
  attributes.toList.map fun values => .element name values []

/-- The attributes of a switch, if it is on. -/
def switchValues (isOn : Bool) : Option (List (String × String)) :=
  if isOn then some [] else none

/-- The attributes of a property with a value, if it has one. -/
def singleValue (value : Option String) : Option (List (String × String)) :=
  value.map fun v => [("val", unbroken v)]

/-- The attributes of a font. -/
def fontValues (font : String) : List (String × String) :=
  ["ascii", "hAnsi", "cs", "eastAsia"].map fun n => (n, unbroken font)

/-- The nodes of all properties that are there. -/
def nodes (p : RunProperties) : List Node :=
  propertyNodes "sz" (singleValue (p.size.map toString)) ++
    propertyNodes "szCs" (singleValue (p.size.map toString)) ++
    propertyNodes "color" (p.color.map fun c => [("val", c)]) ++
    propertyNodes "b" (switchValues p.bold) ++ propertyNodes "bCs" (switchValues p.bold) ++
    propertyNodes "i" (switchValues p.italic) ++ propertyNodes "iCs" (switchValues p.italic) ++
    propertyNodes "u" (singleValue (if p.underline then some "single" else none)) ++
    propertyNodes "rFonts" (p.font.map fontValues) ++
    propertyNodes "rStyle" (singleValue p.style)

/-- The node of properties. -/
def node (p : RunProperties) : Node :=
  .element "rPr" [] p.nodes

/-- The colour of a run is written without references and quotation marks. -/
def HasPlainColor (p : RunProperties) : Prop :=
  ∀ c ∈ p.color, '&' ∉ c.toList ∧ '"' ∉ c.toList

theorem means_switch {name : String} {isOn : Bool} :
    List.Forall₂ Means (switch name isOn) (propertyNodes (localOf name) (switchValues isOn)) := by
  cases isOn
  · exact .nil
  · exact .cons (means_leaf name []) .nil

theorem means_valued {name : String} {value : Option String} :
    List.Forall₂ Means (valued name value) (propertyNodes (localOf name) (singleValue value)) := by
  cases value
  · exact .nil
  · exact .cons (means_leaf name _) .nil

theorem means_color {p : RunProperties} (h : p.HasPlainColor) : List.Forall₂ Means
    (p.color.map fun c => Xml.Markup.element "w:color" [("w:val", c.toList)] []).toList
    (propertyNodes "color" (p.color.map fun c => [("val", c)])) := by
  cases hc : p.color with
  | none => exact .nil
  | some c =>
    exact .cons (means_element (mapM_value?_plain _ (h c hc).1) .nil) .nil

theorem means_font {font : Option String} : List.Forall₂ Means (font.map fontMarkup).toList
    (propertyNodes "rFonts" (font.map fontValues)) := by
  cases font with
  | none => exact .nil
  | some f => exact .cons (means_leaf _ _) .nil

/-- **Properties have a tree.** -/
theorem means_node {p : RunProperties} (h : p.HasPlainColor) : Means p.markup p.node :=
  means_group (List.rel_append (List.rel_append (List.rel_append (List.rel_append
    (List.rel_append (List.rel_append (List.rel_append (List.rel_append (List.rel_append
      means_valued means_valued) (means_color h)) means_switch) means_switch) means_switch)
      means_switch) means_valued) means_font) means_valued)

/-! ### Formats -/

/-- The format that properties are read as. -/
def format (p : RunProperties) (inLink : Bool) : RunFormat :=
  let style := Text.toLower (unbroken (p.style.getD "")).toList
  { bold := p.bold || style == "strong".toList
    italic := p.italic || style == "emphasis".toList
    underline := p.underline && !inLink
    code := RunFormat.codeStyles.contains style ||
      RunFormat.isMonospace (unbroken (p.font.getD "")) }

theorem find?_propertyNodes (n name : String) (attributes : Option (List (String × String))) :
    (propertyNodes n attributes).find? (Node.isNamed name) =
      if n = name then attributes.map (.element n · []) else none := by
  cases attributes with
  | none => rw [Option.map_none, ite_self]; rfl
  | some values =>
    rw [propertyNodes, Option.toList_some, List.map_singleton, List.find?_singleton, Node.isNamed]
    simp only [beq_iff_eq, Option.map_some]

variable (p : RunProperties)

theorem child?_bold :
    p.node.child? "b" = (switchValues p.bold).map (.element "b" · []) := by
  simp [node, nodes, Node.child?, Node.children, List.find?_append, find?_propertyNodes]

theorem child?_italic :
    p.node.child? "i" = (switchValues p.italic).map (.element "i" · []) := by
  simp [node, nodes, Node.child?, Node.children, List.find?_append, find?_propertyNodes]

theorem child?_underline : p.node.child? "u" =
    (singleValue (if p.underline then some "single" else none)).map (.element "u" · []) := by
  simp [node, nodes, Node.child?, Node.children, List.find?_append, find?_propertyNodes]

theorem child?_font :
    p.node.child? "rFonts" = (p.font.map fontValues).map (.element "rFonts" · []) := by
  simp [node, nodes, Node.child?, Node.children, List.find?_append, find?_propertyNodes]

theorem child?_style :
    p.node.child? "rStyle" = (singleValue p.style).map (.element "rStyle" · []) := by
  simp [node, nodes, Node.child?, Node.children, List.find?_append, find?_propertyNodes]

/-! ### Values -/

theorem isOn_switchValues (name : String) (isOn : Bool) :
    RunFormat.isOn ((switchValues isOn).map (.element name · [])) = isOn := by
  cases isOn <;> rfl

theorem isOn_underline (name : String) (isOn : Bool) :
    RunFormat.isOn ((singleValue (if isOn then some "single" else none)).map
      (.element name · [])) = isOn := by
  have hsingle : unbroken "single" = "single" := by decide
  cases isOn
  · rfl
  · simp [singleValue, RunFormat.isOn, Node.attribute?, hsingle]

theorem value_singleValue (name : String) (value : Option String) :
    (((singleValue value).map (Node.element name · [])).bind (·.attribute? "val")).getD "" =
      unbroken (value.getD "") := by
  cases value <;> rfl

theorem value_fontValues (name : String) (font : Option String) :
    (((font.map fontValues).map (Node.element name · [])).bind (·.attribute? "ascii")).getD "" =
      unbroken (font.getD "") := by
  cases font <;> rfl

end RunProperties

/-! ### Runs -/

/-- The node of what a run shows. -/
def RunContent.node : RunContent → Node
  | .text s => .element "t" [("space", "preserve")] (Node.ofText (unbroken s))
  | .lineBreak => .element "br" [("type", "textWrapping")] []

/-- The piece of HTML for what a run shows. -/
def RunContent.piece : RunContent → Piece
  | .text s => .text (unbroken s)
  | .lineBreak => .void "br" []

namespace WrittenRun

/-- The node of a run. -/
def node (r : WrittenRun) : Node :=
  .element "r" [] [r.properties.node, r.content.node]

/-- The segment that a run is read as. -/
def segment (inLink : Bool) (r : WrittenRun) : Segment :=
  ⟨r.properties.format inLink, r.content.piece⟩

/-- **Runs have a tree.** -/
theorem means_node {r : WrittenRun} (h : r.properties.HasPlainColor) : Means r.markup r.node := by
  have hcontent : Means
      (match r.content with
        | .text s =>
          .element "w:t" [("xml:space", "preserve".toList)] [.text (Xml.escape s.toList)]
        | .lineBreak => .leaf "w:br" [("w:type", "textWrapping")])
      r.content.node := by
    cases r.content with
    | text s => exact means_textElement rfl s
    | lineBreak => exact means_leaf _ _
  exact means_group (.cons (RunProperties.means_node h) (.cons hcontent .nil))

theorem ofRun_node (r : WrittenRun) (inLink : Bool) :
    RunFormat.ofRun r.node inLink = r.properties.format inLink := by
  have hpath (name : String) : r.node.path? ["rPr", name] = r.properties.node.child? name :=
    Node.path?_pair r.node "rPr" name
  simp only [RunFormat.ofRun, Node.pathValue?, hpath, RunProperties.child?_bold,
    RunProperties.child?_italic, RunProperties.child?_underline, RunProperties.child?_font,
    RunProperties.child?_style, RunProperties.isOn_switchValues, RunProperties.isOn_underline,
    RunProperties.value_singleValue, RunProperties.value_fontValues, RunProperties.format]

/-- **A run is read as its segment.** -/
theorem segmentsOf_node (p : Package) (inLink : Bool) (r : WrittenRun) :
    segmentsOf p inLink r.node = [r.segment inLink] := by
  have hproperties : runPiece? p r.properties.node = none := rfl
  have hcontent : runPiece? p r.content.node = some r.content.piece := by
    cases r.content with
    | text s =>
      rw [RunContent.node, runPiece?]
      simp only [if_true, Node.ownText_ofText, RunContent.piece]
    | lineBreak => rfl
  rw [show segmentsOf p inLink r.node = runSegments p r.node inLink from rfl, runSegments,
    show r.node.children = [r.properties.node, r.content.node] from rfl, List.filterMap_cons,
    hproperties, List.filterMap_cons, hcontent, ofRun_node]
  rfl

end WrittenRun

end Interdoc.Docx

import Interdoc.Docx.Body
import Interdoc.Proofs.Docx.Runs
import Interdoc.Proofs.Text.Decimal

/-!
# Written paragraphs

The tree of a written paragraph (`WrittenParagraph.node`), and what a reader makes of it if there is
nothing but runs in it (`WrittenParagraph.read`): the kind is that of its style, the numbering that
of its place in a list, and the content that of its runs.
-/

namespace Interdoc.Docx

open Html (Piece)
open Xml (Node unbroken)
open Xml.Markup (Means means_leaf means_group means_element)

/-! ### Numbers -/

theorem unbroken_toString (n : Nat) : unbroken (toString n) = toString n := by
  refine Xml.unbroken_eq_self fun c hc => ?_
  have hdigit := isDigit_of_mem_toString hc
  rw [Xml.isInLine, Bool.and_eq_true, bne_iff_ne, bne_iff_ne]
  constructor <;> rintro rfl <;> exact absurd hdigit (by decide)

theorem not_mem_linkId {c : Char} (hc : c.isAlphanum = false) (n : Nat) :
    c ∉ (linkId n).toList := by
  rw [Char.isAlphanum, Bool.or_eq_false_iff] at hc
  intro h
  rw [linkId, String.toList_append, List.mem_append] at h
  refine h.elim (fun hlink => ?_) (not_mem_toString hc.2 n)
  have hletters : ∀ d ∈ "link".toList, d.isAlpha = true := by decide
  rw [hletters c hlink] at hc
  cases hc.1

/-! ### Trees -/

/-- The node of a place in a list. -/
def ListPlace.node (p : ListPlace) : Node :=
  .element "numPr" []
    [.element "numId" [("val", toString p.list)] [], .element "ilvl" [("val", toString p.level)] []]

theorem ListPlace.means_node (p : ListPlace) : Means p.markup p.node := by
  have h : Means p.markup (.element "numPr" []
      [.element "numId" [("val", unbroken (toString p.list))] [],
       .element "ilvl" [("val", unbroken (toString p.level))] []]) :=
    means_group (.cons (means_leaf _ _) (.cons (means_leaf _ _) .nil))
  rwa [unbroken_toString, unbroken_toString] at h

/-- The nodes of the parts of a paragraph; the number is that of the next link. -/
def partNodes (next : Nat) : List ParagraphPart → List Node
  | [] => []
  | .run r :: rest => r.node :: partNodes next rest
  | .hyperlink _ runs :: rest =>
    .element "hyperlink" [("id", linkId next), ("history", "1")] (runs.map WrittenRun.node) ::
      partNodes (next + 1) rest

/-- The runs of a part of a paragraph. -/
def ParagraphPart.runs : ParagraphPart → List WrittenRun
  | .run r => [r]
  | .hyperlink _ runs => runs

namespace WrittenParagraph

/-- The node of the properties of a paragraph. -/
def propertyNode (p : WrittenParagraph) : Node :=
  .element "pPr" []
    (.element "rPr" [] [] ::
      (p.style.toList.map fun s => .element "pStyle" [("val", unbroken s)] []) ++
      p.place.toList.map ListPlace.node ++
      (p.alignment.toList.map fun a => .element "jc" [("val", a.name)] []))

/-- The node of a paragraph; the number is that of the next link. -/
def node (next : Nat) (p : WrittenParagraph) : Node :=
  .element "p" [] (p.propertyNode :: partNodes next p.parts)

theorem unbroken_name (a : Alignment) : unbroken a.name = a.name := by
  cases a <;> decide

theorem means_propertyNode (p : WrittenParagraph) : Means
    (.group "w:pPr"
      (.group "w:rPr" [] ::
        (p.style.map fun s => Xml.Markup.leaf "w:pStyle" [("w:val", s)]).toList ++
        (p.place.map ListPlace.markup).toList ++
        (p.alignment.map fun a => Xml.Markup.leaf "w:jc" [("w:val", a.name)]).toList))
    p.propertyNode := by
  refine means_group (List.rel_append (List.rel_append (.cons (means_group .nil) ?_) ?_) ?_)
  · cases p.style with
    | none => exact .nil
    | some s => exact .cons (means_leaf _ _) .nil
  · cases p.place with
    | none => exact .nil
    | some place => exact .cons place.means_node .nil
  · cases p.alignment with
    | none => exact .nil
    | some a =>
      rw [Option.toList_some, List.map_singleton, ← unbroken_name]
      exact .cons (means_leaf _ _) .nil

theorem means_runs {runs : List WrittenRun} (h : ∀ r ∈ runs, r.properties.HasPlainColor) :
    List.Forall₂ Means (runs.map WrittenRun.markup) (runs.map WrittenRun.node) := by
  induction runs with
  | nil => exact .nil
  | cons r runs ih =>
    rw [List.forall_mem_cons] at h
    exact .cons (WrittenRun.means_node h.1) (ih h.2)

theorem means_parts (next : Nat) {parts : List ParagraphPart}
    (h : ∀ part ∈ parts, ∀ r ∈ part.runs, r.properties.HasPlainColor) :
    List.Forall₂ Means (partsMarkup next parts) (partNodes next parts) := by
  induction parts generalizing next with
  | nil => exact .nil
  | cons part parts ih =>
    rw [List.forall_mem_cons] at h
    cases part with
    | run r => exact .cons (WrittenRun.means_node (h.1 r List.mem_cons_self)) (ih next h.2)
    | hyperlink target runs =>
      refine .cons (means_element ?_ (means_runs h.1)) (ih (next + 1) h.2)
      have hid := Xml.unescape?_eq_self (not_mem_linkId (by decide) next)
      rw [List.mapM_cons, Xml.Markup.value?, hid]
      simp only [String.ofList_toList]
      rfl

/-- The colours of all runs of a paragraph are plain. -/
def HasPlainColors (p : WrittenParagraph) : Prop :=
  ∀ part ∈ p.parts, ∀ r ∈ part.runs, r.properties.HasPlainColor

/-- **Paragraphs have a tree.** -/
theorem means_node (next : Nat) {p : WrittenParagraph} (h : p.HasPlainColors) :
    Means (p.markup next) (p.node next) :=
  means_group (.cons p.means_propertyNode (means_parts next h))

/-! ### Reading -/

/-- A paragraph has no links, and no colours that need references. -/
def IsPlain (p : WrittenParagraph) : Prop :=
  ∃ runs : List WrittenRun, p.parts = runs.map .run ∧ ∀ r ∈ runs, r.properties.HasPlainColor

theorem IsPlain.hasPlainColors {p : WrittenParagraph} (h : p.IsPlain) : p.HasPlainColors := by
  obtain ⟨runs, hparts, hruns⟩ := h
  rw [HasPlainColors, hparts]
  rintro part hpart r hr
  obtain ⟨r', hr', rfl⟩ := List.mem_map.mp hpart
  rw [List.mem_singleton.mp hr]
  exact hruns r' hr'

/-- The segments of a paragraph without links. -/
def segments (p : WrittenParagraph) : List Segment :=
  (p.parts.flatMap ParagraphPart.runs).map (WrittenRun.segment false)

/-- The style of a paragraph, as it is read. -/
def styleName (p : WrittenParagraph) : String :=
  unbroken (p.style.getD "")

/-- What a paragraph without links is read as. -/
def read (p : WrittenParagraph) : Paragraph :=
  { kind := .ofStyle p.styleName
    numbering? := (p.place.filter fun place => place.list != 0).map fun place =>
      (toString place.list, toString place.level)
    content := renderSegments p.segments
    codeLine := unescapeCode (Html.render (p.segments.map Segment.piece)) }

variable (pkg : Package) (next : Nat) (p : WrittenParagraph)

theorem styleOf_node : styleOf (p.node next) = p.styleName := by
  rw [styleOf, Node.pathValue?, Node.path?_pair,
    show (p.node next).child? "pPr" = some p.propertyNode from rfl, styleName]
  obtain ⟨style, place, alignment, parts⟩ := p
  cases style with
  | none => cases place <;> cases alignment <;> rfl
  | some s => rfl

theorem numberingOf?_node : numberingOf? (p.node next) = p.read.numbering? := by
  have hpath : (p.node next).path? ["pPr", "numPr"] = p.place.map ListPlace.node := by
    rw [Node.path?_pair, show (p.node next).child? "pPr" = some p.propertyNode from rfl]
    obtain ⟨style, place, alignment, parts⟩ := p
    cases place with
    | none => cases style <;> cases alignment <;> rfl
    | some place => cases style <;> rfl
  rw [numberingOf?, hpath, read]
  cases p.place with
  | none => rfl
  | some place =>
    have hvalues : place.node.pathValue? ["numId"] = some (toString place.list) ∧
        place.node.pathValue? ["ilvl"] = some (toString place.level) := ⟨rfl, rfl⟩
    have hzero : toString place.list = "0" ↔ place.list = 0 :=
      toString_inj (n := 0)
    rw [Option.map_some]
    simp only [Option.bind_eq_bind, Option.bind_some, hvalues, hzero, Option.getD_some]
    -- the number zero takes a paragraph out of all lists
    by_cases h : place.list = 0
    · rw [if_pos h, Option.filter_some, if_neg (by simpa using h), Option.map_none]
    · rw [if_neg h, Option.filter_some, if_pos (by simpa using h), Option.map_some]
      rfl

theorem alignment_node :
    (p.node next).pathValue? ["pPr", "jc"] = p.alignment.map Alignment.name := by
  rw [Node.pathValue?, Node.path?_pair,
    show (p.node next).child? "pPr" = some p.propertyNode from rfl]
  obtain ⟨style, place, alignment, parts⟩ := p
  cases style <;> cases place <;> cases alignment <;> rfl

/-! ### Paragraphs without links -/

variable {runs : List WrittenRun}

theorem segmentsAmong_runs :
    segmentsAmong pkg false (partNodes next (runs.map .run)) =
      runs.map (WrittenRun.segment false) := by
  induction runs with
  | nil => rfl
  | cons r runs ih =>
    rw [List.map_cons, partNodes, segmentsAmong, WrittenRun.segmentsOf_node, ih]
    rfl

theorem contentFrom_runs (pending : List Segment) :
    contentFrom pkg pending (partNodes next (runs.map .run)) =
      renderSegments (pending ++ runs.map (WrittenRun.segment false)) := by
  induction runs generalizing pending with
  | nil => rw [List.map_nil, List.map_nil, List.append_nil]; rfl
  | cons r runs ih =>
    have hname : r.node.isNamed "hyperlink" = false := rfl
    rw [List.map_cons, partNodes, contentFrom, hname, if_neg Bool.false_ne_true,
      WrittenRun.segmentsOf_node, ih,
      List.append_assoc]
    rfl

variable {p}

/-- **A paragraph without links is read as what it says.** -/
theorem ofNode_node (h : p.IsPlain) : Paragraph.ofNode pkg (p.node next) = p.read := by
  obtain ⟨runs, hparts, -⟩ := h
  have hsegments : p.segments = runs.map (WrittenRun.segment false) := by
    rw [segments, hparts, List.flatMap_map]
    simp only [ParagraphPart.runs, List.flatMap_singleton']
  have hcontent : contentOf pkg (p.node next) = renderSegments p.segments := by
    rw [contentOf, show (p.node next).children = p.propertyNode :: partNodes next p.parts from rfl,
      contentFrom, hparts, hsegments]
    exact contentFrom_runs pkg next []
  have hcode : segmentsAmong pkg false (p.node next).children = p.segments := by
    rw [show (p.node next).children = p.propertyNode :: partNodes next p.parts from rfl,
      segmentsAmong, hparts, hsegments]
    exact segmentsAmong_runs pkg next
  rw [Paragraph.ofNode, styleOf_node, numberingOf?_node, hcontent, codeLineOf, hcode]
  rfl

end WrittenParagraph

end Interdoc.Docx

import Interdoc.Docx.Rendering

/-!
# Packages with another document

What a node is read as is a matter of the node, the relationships and the numbering.  The document
of a package comes in only where its body is looked up (`pieces_withDocument`).
-/

namespace Interdoc.Docx

open Xml (Node)

/-- A package with another document in it. -/
def Package.withDocument (p : Package) (d : Node) : Package :=
  { p with document := d }

variable (p : Package) (d : Node)

/-! ### Paragraphs -/

theorem runSegments_withDocument (run : Node) (inLink : Bool) :
    runSegments (p.withDocument d) run inLink = runSegments p run inLink := rfl

theorem hyperlinkTarget_withDocument (link : Node) :
    hyperlinkTarget (p.withDocument d) link = hyperlinkTarget p link := rfl

mutual

theorem segmentsOf_withDocument (inLink : Bool) : ∀ node : Node,
    segmentsOf (p.withDocument d) inLink node = segmentsOf p inLink node
  | .text _ => rfl
  | .element name attributes children => by
    rw [segmentsOf, segmentsOf, runSegments_withDocument,
      segmentsAmong_withDocument inLink children]

theorem segmentsAmong_withDocument (inLink : Bool) : ∀ nodes : List Node,
    segmentsAmong (p.withDocument d) inLink nodes = segmentsAmong p inLink nodes
  | [] => rfl
  | node :: rest => by
    rw [segmentsAmong, segmentsAmong, segmentsOf_withDocument inLink node,
      segmentsAmong_withDocument inLink rest]

end

theorem contentFrom_withDocument (pending : List Segment) (nodes : List Node) :
    contentFrom (p.withDocument d) pending nodes = contentFrom p pending nodes := by
  induction nodes generalizing pending with
  | nil => rfl
  | cons node rest ih =>
    rw [contentFrom, contentFrom, segmentsAmong_withDocument, segmentsOf_withDocument,
      hyperlinkTarget_withDocument, ih, ih]

theorem contentOf_withDocument (node : Node) :
    contentOf (p.withDocument d) node = contentOf p node :=
  contentFrom_withDocument p d [] node.children

theorem ofNode_withDocument (node : Node) :
    Paragraph.ofNode (p.withDocument d) node = .ofNode p node := by
  rw [Paragraph.ofNode, Paragraph.ofNode, contentOf_withDocument, codeLineOf, codeLineOf,
    segmentsAmong_withDocument]

/-! ### Items -/

theorem tablePieces_withDocument (table : Node) :
    tablePieces (p.withDocument d) table = tablePieces p table := by
  have hcell (tag : String) : cellPieces (p.withDocument d) tag = cellPieces p tag := by
    funext cell
    unfold cellPieces
    simp only [contentOf_withDocument]
  have hrow : rowPieces (p.withDocument d) = rowPieces p := by
    funext row
    unfold rowPieces
    simp only [hcell]
  rw [tablePieces, tablePieces, hrow]

mutual

theorem itemsOf_withDocument : ∀ node : Node, itemsOf (p.withDocument d) node = itemsOf p node
  | .text _ => rfl
  | .element name attributes children => by
    rw [itemsOf, itemsOf, ofNode_withDocument, tablePieces_withDocument,
      controlItems_withDocument children, itemsAmong_withDocument children]

theorem itemsAmong_withDocument : ∀ nodes : List Node,
    itemsAmong (p.withDocument d) nodes = itemsAmong p nodes
  | [] => rfl
  | node :: rest => by
    rw [itemsAmong, itemsAmong, itemsOf_withDocument node, itemsAmong_withDocument rest]

theorem controlItems_withDocument : ∀ nodes : List Node,
    controlItems (p.withDocument d) nodes = controlItems p nodes
  | [] => rfl
  | .text _ :: rest => by rw [controlItems, controlItems, controlItems_withDocument rest]
  | .element name attributes children :: rest => by
    rw [controlItems, controlItems, itemsAmong_withDocument children,
      controlItems_withDocument rest]

end

/-! ### Rendering -/

theorem step_withDocument (c : Context) (item : BodyItem) :
    c.step (p.withDocument d) item = c.step p item := rfl

theorem render_withDocument (c : Context) (items : List BodyItem) :
    c.render (p.withDocument d) items = c.render p items := by
  induction items generalizing c with
  | nil => rfl
  | cons item rest ih =>
    rw [Context.render, Context.render, step_withDocument]
    exact congrArg _ (ih _)

/-- **Only the body is looked up in the document of a package.** -/
theorem pieces_withDocument :
    (p.withDocument d).pieces = Context.render p {} (bodyItems (p.withDocument d)) := by
  rw [Package.pieces, render_withDocument]

end Interdoc.Docx

import Interdoc.Proofs.Docx.DocumentPart
import Interdoc.Proofs.Docx.Items
import Interdoc.Proofs.Html.Tags

/-!
# Wrappers

Content controls, insertions and custom markup may be put around paragraphs.  In a body they are
looked through, at any depth and whatever stands around them (`itemsOf_wrapper`).  In a cell of a
table only the paragraphs directly inside are seen, so that a cell with wrapped paragraphs is read
as the cell without them (`cellPieces_wrapper`).

That the rendering is another one then is found out by counting the tags in it: the alignment of a
cell adds none (`tags_cellPieces`), but every paragraph two.
-/

namespace Interdoc.Docx

open Html (Piece)
open Xml (Node)

/-! ### Places -/

/-- Whether a node says something about a wrapper, or is a text. -/
def isProperty : Node → Bool
  | .text _ => true
  | .element name _ _ => ["sdtPr", "sdtEndPr", "customXmlPr"].contains name

/-- What stands in a wrapper besides the content, with no paragraph in it. -/
structure Properties where
  nodes : List Node
  areProperties : ∀ n ∈ nodes, isProperty n = true
  lacksParagraphs : Lacks "p" nodes

/-- Markup around content. -/
inductive Wrapper where
  | insertion (attributes : List (String × String))
  | customXml (attributes : List (String × String)) (properties : Properties)
  /-- A content control, with the content in an element of its own. -/
  | control (attributes : List (String × String)) (properties : Properties)
    (contentAttributes : List (String × String))

/-- The wrapper around nodes. -/
def Wrapper.node (content : List Node) : Wrapper → Node
  | .insertion attributes => .element "ins" attributes content
  | .customXml attributes properties =>
    .element "customXml" attributes (properties.nodes ++ content)
  | .control attributes properties contentAttributes =>
    .element "sdt" attributes
      (properties.nodes ++ [.element "sdtContent" contentAttributes content])

/-- A place among the nodes of a body, or in wrappers there. -/
inductive BodyPlace where
  | here (before after : List Node)
  | inside (before : List Node) (w : Wrapper) (inner : BodyPlace) (after : List Node)

/-- The nodes of a body with nodes in the place. -/
def BodyPlace.fill (run : List Node) : BodyPlace → List Node
  | .here before after => before ++ run ++ after
  | .inside before w inner after => before ++ [w.node (inner.fill run)] ++ after

/-- A place in a cell of a table. -/
structure CellPlace where
  tableAttributes : List (String × String)
  rowsBefore : List Node
  rowsAfter : List Node
  rowAttributes : List (String × String)
  cellsBefore : List Node
  cellsAfter : List Node
  cellAttributes : List (String × String)
  before : List Node
  after : List Node

namespace CellPlace

/-- The cell with nodes in the place. -/
def cell (place : CellPlace) (run : List Node) : Node :=
  .element "tc" place.cellAttributes (place.before ++ run ++ place.after)

/-- The row of the cell. -/
def row (place : CellPlace) (run : List Node) : Node :=
  .element "tr" place.rowAttributes (place.cellsBefore ++ [place.cell run] ++ place.cellsAfter)

/-- The table of the cell. -/
def table (place : CellPlace) (run : List Node) : Node :=
  .element "tbl" place.tableAttributes (place.rowsBefore ++ [place.row run] ++ place.rowsAfter)

end CellPlace

/-- What stands around the nodes of the body of a document. -/
structure Frame where
  name : String
  attributes : List (String × String)
  before : List Node
  bodyAttributes : List (String × String)
  after : List Node
  isFirst : ∀ n ∈ before, n.isNamed "body" = false

/-- The document with the nodes in its body. -/
def Frame.document (f : Frame) (nodes : List Node) : Node :=
  .element f.name f.attributes (f.before ++ [.element "body" f.bodyAttributes nodes] ++ f.after)

/-! ### Bodies -/

section

variable (p : Package)

/-- Properties are passed over. -/
theorem Properties.pass (ps : Properties) :
    itemsAmong p ps.nodes = [] ∧
      ∀ rest, controlItems p (ps.nodes ++ rest) = controlItems p rest := by
  have hnames := ps.areProperties
  generalize ps.nodes = nodes at hnames
  induction nodes with
  | nil => exact ⟨rfl, fun _ => rfl⟩
  | cons n nodes ih =>
    rw [List.forall_mem_cons] at hnames
    obtain ⟨hitems, hcontrol⟩ := ih hnames.2
    cases n with
    | text s => exact ⟨hitems, hcontrol⟩
    | element name attributes children =>
      have hname : name = "sdtPr" ∨ name = "sdtEndPr" ∨ name = "customXmlPr" := by
        simpa [isProperty] using hnames.1
      rcases hname with rfl | rfl | rfl <;> exact ⟨hitems, hcontrol⟩

/-- **Wrappers are looked through in a body.** -/
theorem itemsOf_wrapper (w : Wrapper) (content : List Node) :
    itemsOf p (w.node content) = itemsAmong p content := by
  cases w with
  | insertion attributes => rfl
  | customXml attributes properties =>
    show itemsAmong p (properties.nodes ++ content) = itemsAmong p content
    rw [itemsAmong_append, (properties.pass p).1, List.nil_append]
  | control attributes properties contentAttributes =>
    show controlItems p
      (properties.nodes ++ [Node.element "sdtContent" contentAttributes content]) =
        itemsAmong p content
    rw [(properties.pass p).2]
    rfl

theorem itemsAmong_wrapper (w : Wrapper) (content : List Node) :
    itemsAmong p [w.node content] = itemsAmong p content := by
  rw [itemsAmong, itemsOf_wrapper]
  exact List.append_nil _

/-- What is read in a place of a body is read between what stands around it. -/
theorem BodyPlace.exists_items (place : BodyPlace) : ∃ before after, ∀ run,
    itemsAmong p (place.fill run) = before ++ itemsAmong p run ++ after := by
  induction place with
  | here before after =>
    refine ⟨itemsAmong p before, itemsAmong p after, fun run => ?_⟩
    rw [fill, itemsAmong_append, itemsAmong_append]
  | inside before w inner after ih =>
    obtain ⟨is, js, hinner⟩ := ih
    refine ⟨itemsAmong p before ++ is, js ++ itemsAmong p after, fun run => ?_⟩
    rw [fill, itemsAmong_append, itemsAmong_append, itemsAmong_wrapper, hinner]
    simp only [List.append_assoc]

/-- A rendering depends on the items of the body. -/
theorem Frame.html_document (f : Frame) (nodes : List Node) :
    (p.withDocument (f.document nodes)).html =
      Html.render (Context.render p {} (itemsAmong p nodes)) := by
  have hbody : (f.document nodes).child? "body" =
      some (.element "body" f.bodyAttributes nodes) := by
    show (f.before ++ [Node.element "body" f.bodyAttributes nodes] ++ f.after).find?
      (Node.isNamed "body") = _
    rw [List.append_assoc, List.find?_append, List.find?_eq_none.mpr (by simpa using f.isFirst)]
    rfl
  have hitems : bodyItems (p.withDocument (f.document nodes)) = itemsAmong p nodes := by
    have hdocument : (p.withDocument (f.document nodes)).document = f.document nodes := rfl
    rw [bodyItems, hdocument, hbody]
    exact itemsAmong_withDocument p (f.document nodes) nodes
  rw [Package.html, pieces_withDocument, hitems]

end

/-! ### Cells -/

theorem descendantsAmong_append (name : String) (ms ns : List Node) :
    Node.descendantsAmong name (ms ++ ns) =
      Node.descendantsAmong name ms ++ Node.descendantsAmong name ns := by
  rw [descendantsAmong_eq_flatMap, List.flatMap_append, ← descendantsAmong_eq_flatMap,
    ← descendantsAmong_eq_flatMap]

theorem isNamed_wrapper (w : Wrapper) (content : List Node) :
    (w.node content).isNamed "p" = false := by
  cases w <;> rfl

/-- The paragraphs below a wrapper are those in the content. -/
theorem descendantsAmong_wrapper (w : Wrapper) (content : List Node) :
    Node.descendantsAmong "p" [w.node content] = Node.descendantsAmong "p" content := by
  have hbelow : (w.node content).descendants "p" = Node.descendantsAmong "p" content := by
    cases w with
    | insertion attributes => rfl
    | customXml attributes properties =>
      rw [Wrapper.node, Node.descendants, descendantsAmong_append, properties.lacksParagraphs]
      rfl
    | control attributes properties contentAttributes =>
      rw [Wrapper.node, Node.descendants, descendantsAmong_append, properties.lacksParagraphs]
      exact List.append_nil _
  rw [Node.descendantsAmong, isNamed_wrapper, hbelow]
  exact List.append_nil _

section

variable (p : Package) (place : CellPlace) (w : Wrapper) {run : List Node}

/-- The pieces of paragraphs in a cell. -/
def paragraphPieces (paragraphs : List Node) : List Piece :=
  paragraphs.flatMap fun q => Html.element "p" (contentOf p q)

/-- The paragraphs directly inside a cell. -/
theorem childrenNamed_cell (h : ∀ n ∈ run, n.isNamed "p" = true) :
    (place.cell run).childrenNamed "p" =
      place.before.filter (Node.isNamed "p") ++ run ++ place.after.filter (Node.isNamed "p") := by
  show (place.before ++ run ++ place.after).filter (Node.isNamed "p") = _
  rw [List.filter_append, List.filter_append, List.filter_eq_self.mpr h]

/-- **A cell is read as if what is wrapped were not there.** -/
theorem cellPieces_wrapper (tag : String) (content : List Node) :
    cellPieces p tag (place.cell [w.node content]) = cellPieces p tag (place.cell []) := by
  have hparagraphs : (place.cell [w.node content]).childrenNamed "p" =
      (place.cell []).childrenNamed "p" := by
    show (place.before ++ [w.node content] ++ place.after).filter (Node.isNamed "p") =
      (place.before ++ [] ++ place.after).filter (Node.isNamed "p")
    simp only [List.filter_append, List.filter_cons, isNamed_wrapper, List.filter_nil]
    rfl
  rw [cellPieces, cellPieces, hparagraphs]

/-- Whether a row is a header row is a matter of its properties and of the paragraphs below the
cell. -/
theorem isHeaderRow_congr {ms ns : List Node}
    (h : Node.descendantsAmong "p" ms = Node.descendantsAmong "p" ns) :
    isHeaderRow (place.row ms) = isHeaderRow (place.row ns) := by
  have hproperties : (place.row ms).path? ["trPr", "tblHeader"] =
      (place.row ns).path? ["trPr", "tblHeader"] := by
    have hcell (run : List Node) : [place.cell run].find? (Node.isNamed "trPr") = none := rfl
    have hchild : (place.row ms).child? "trPr" = (place.row ns).child? "trPr" := by
      show (place.cellsBefore ++ [place.cell ms] ++ place.cellsAfter).find? (Node.isNamed "trPr") =
        (place.cellsBefore ++ [place.cell ns] ++ place.cellsAfter).find? (Node.isNamed "trPr")
      simp only [List.find?_append, hcell]
    rw [Node.path?, Node.path?, hchild]
  have hbelow : (place.row ms).descendants "p" = (place.row ns).descendants "p" := by
    have hcell (run : List Node) : Node.descendantsAmong "p" [place.cell run] =
        Node.descendantsAmong "p" (place.before ++ run ++ place.after) :=
      List.append_nil _
    simp only [CellPlace.row, Node.descendants, descendantsAmong_append, hcell, h]
  rw [isHeaderRow, isHeaderRow, hproperties, hbelow]

/-! ### Tags -/

/-- The number of tags in the text of pieces. -/
def tags (ps : List Piece) : Nat :=
  (Html.render ps).count '<'

theorem tags_append (ps qs : List Piece) : tags (ps ++ qs) = tags ps + tags qs := by
  rw [tags, Html.render, List.flatMap_append, List.count_append]
  rfl

theorem not_mem_escape (s : List Char) : '<' ∉ Html.escape s := by
  intro h
  exact absurd (Html.not_isReserved_of_mem_escape h) (by decide)

/-- A style adds no tag. -/
theorem tags_start_style (tag value : String) :
    tags [.start tag [("style", value)]] = tags [.start tag []] := by
  have hstyle : (Html.renderAttribute ("style", value)).count '<' = 0 := by
    refine List.count_eq_zero.mpr fun h => ?_
    simp [Html.renderAttribute, not_mem_escape] at h
  simp only [tags, Html.render, List.flatMap_cons, List.flatMap_nil, List.append_nil,
    Piece.render, Html.renderStart, List.count_append, hstyle, Nat.add_zero]

/-- **The tags of a cell are its own and those of its paragraphs.** -/
theorem tags_cellPieces (tag : String) (cell : Node) :
    tags (cellPieces p tag cell) =
      tags [.start tag []] + tags (paragraphPieces p (cell.childrenNamed "p")) +
        tags [.finish tag] := by
  have hcons (piece : Piece) (ps : List Piece) : tags (piece :: ps) = tags [piece] + tags ps :=
    tags_append [piece] ps
  unfold cellPieces
  dsimp only
  rw [tags_append, hcons]
  split
  · rw [tags_start_style]
    rfl
  · rfl

/-- There are at least two tags for each paragraph. -/
theorem two_mul_length_le_tags (paragraphs : List Node) :
    2 * paragraphs.length ≤ tags (paragraphPieces p paragraphs) := by
  induction paragraphs with
  | nil => exact Nat.zero_le _
  | cons q paragraphs ih =>
    have hfirst : 2 ≤ tags (Html.element "p" (contentOf p q)) := by
      have htags : tags [.start "p" []] = 1 ∧ tags [.finish "p"] = 1 := by decide
      have helement : Html.element "p" (contentOf p q) =
          [.start "p" []] ++ contentOf p q ++ [.finish "p"] := rfl
      rw [helement, tags_append, tags_append, htags.1, htags.2]
      omega
    rw [paragraphPieces, List.flatMap_cons, tags_append, List.length_cons]
    unfold paragraphPieces at ih
    omega

/-- A cell has the tags of the paragraphs in a place besides those that it has without them. -/
theorem tags_cell (tag : String) (h : ∀ n ∈ run, n.isNamed "p" = true) :
    tags (cellPieces p tag (place.cell run)) =
      tags (cellPieces p tag (place.cell [])) + tags (paragraphPieces p run) := by
  have happend (ms ns : List Node) : tags (paragraphPieces p (ms ++ ns)) =
      tags (paragraphPieces p ms) + tags (paragraphPieces p ns) := by
    rw [paragraphPieces, List.flatMap_append, tags_append]
    rfl
  rw [tags_cellPieces, tags_cellPieces, childrenNamed_cell place h,
    childrenNamed_cell place (List.forall_mem_nil _), happend, happend, happend, happend]
  have hnil : tags (paragraphPieces p []) = 0 := rfl
  omega

end

/-! ### Tables -/

/-- The tag of the cells in the row of a place. -/
def CellPlace.tag (place : CellPlace) (run : List Node) : String :=
  if isHeaderRow (place.row run) then "th" else "td"

section

variable (p : Package) (place : CellPlace)

/-- The pieces of the rows among nodes. -/
def rowsPieces (nodes : List Node) : List Piece :=
  (nodes.filter (Node.isNamed "tr")).flatMap (rowPieces p)

/-- The pieces of the cells among nodes. -/
def cellsPieces (tag : String) (nodes : List Node) : List Piece :=
  (nodes.filter (Node.isNamed "tc")).flatMap (cellPieces p tag)

theorem rowPieces_row (run : List Node) : rowPieces p (place.row run) = Html.element "tr"
    (cellsPieces p (place.tag run) place.cellsBefore ++
      cellPieces p (place.tag run) (place.cell run) ++
      cellsPieces p (place.tag run) place.cellsAfter) := by
  have hcells : (place.row run).childrenNamed "tc" =
      place.cellsBefore.filter (Node.isNamed "tc") ++ [place.cell run] ++
        place.cellsAfter.filter (Node.isNamed "tc") := by
    show (place.cellsBefore ++ [place.cell run] ++ place.cellsAfter).filter _ = _
    rw [List.filter_append, List.filter_append]
    rfl
  rw [rowPieces, hcells, List.flatMap_append, List.flatMap_append, List.flatMap_singleton]
  rfl

theorem tablePieces_table (run : List Node) : tablePieces p (place.table run) =
    Html.element "table"
      (rowsPieces p place.rowsBefore ++ rowPieces p (place.row run) ++
        rowsPieces p place.rowsAfter) := by
  have hrows : (place.table run).childrenNamed "tr" =
      place.rowsBefore.filter (Node.isNamed "tr") ++ [place.row run] ++
        place.rowsAfter.filter (Node.isNamed "tr") := by
    show (place.rowsBefore ++ [place.row run] ++ place.rowsAfter).filter _ = _
    rw [List.filter_append, List.filter_append]
    rfl
  rw [tablePieces, hrows, List.flatMap_append, List.flatMap_append, List.flatMap_singleton]
  rfl

/-- The pieces of a table are those of the cell between pieces that depend on nothing but its tag.
-/
theorem CellPlace.exists_pieces : ∃ before after : String → List Piece, ∀ run,
    tablePieces p (place.table run) = before (place.tag run) ++
      cellPieces p (place.tag run) (place.cell run) ++ after (place.tag run) := by
  refine ⟨fun tag => .start "table" [] :: rowsPieces p place.rowsBefore ++
      .start "tr" [] :: cellsPieces p tag place.cellsBefore,
    fun tag => cellsPieces p tag place.cellsAfter ++
      .finish "tr" :: rowsPieces p place.rowsAfter ++ [.finish "table"], fun run => ?_⟩
  rw [tablePieces_table, rowPieces_row]
  simp only [Html.element, List.append_assoc, List.cons_append, List.nil_append]

/-- A table stands between pieces that do not depend on what is in it. -/
theorem Context.exists_render_table (c : Context) (items others : List BodyItem) :
    ∃ before after, ∀ pieces,
      c.render p (items ++ [.table pieces] ++ others) = before ++ pieces ++ after := by
  induction items generalizing c with
  | nil =>
    refine ⟨c.heldBack ++ c.closeLists, Context.render p {} others, fun pieces => ?_⟩
    rfl
  | cons item items ih =>
    obtain ⟨before, after, hrest⟩ := ih (c.step p item).2
    refine ⟨(c.step p item).1 ++ before, after, fun pieces => ?_⟩
    have hstep : c.render p (item :: (items ++ [.table pieces] ++ others)) =
        (c.step p item).1 ++ (c.step p item).2.render p (items ++ [.table pieces] ++ others) := rfl
    rw [List.cons_append, List.cons_append, hstep, hrest]
    simp only [List.append_assoc]

/-- The HTML of a document is that of a cell in it between texts that depend on nothing but the tag
of the cell. -/
theorem CellPlace.exists_html (f : Frame) (body : BodyPlace) :
    ∃ before after : String → List Piece, ∀ run,
      (p.withDocument (f.document (body.fill [place.table run]))).html =
        Html.render (before (place.tag run) ++
          cellPieces p (place.tag run) (place.cell run) ++ after (place.tag run)) := by
  obtain ⟨items, others, hitems⟩ := body.exists_items p
  obtain ⟨outerBefore, outerAfter, houter⟩ := Context.exists_render_table p {} items others
  obtain ⟨before, after, hpieces⟩ := place.exists_pieces p
  refine ⟨fun tag => outerBefore ++ before tag, fun tag => after tag ++ outerAfter, fun run => ?_⟩
  have htable : itemsAmong p [place.table run] = [.table (tablePieces p (place.table run))] := rfl
  rw [f.html_document, hitems, htable, houter, hpieces]
  simp only [List.append_assoc]

end

/-! ### Documents -/

section

variable (p : Package) (f : Frame) (body : BodyPlace) (w : Wrapper) {run : List Node}

/-- Wrapped paragraphs in a body are rendered as they are without the wrapper. -/
theorem html_wrapped_in_body : (p.withDocument (f.document (body.fill [w.node run]))).html =
    (p.withDocument (f.document (body.fill run))).html := by
  obtain ⟨before, after, hitems⟩ := body.exists_items p
  rw [f.html_document, f.html_document, hitems, hitems, itemsAmong_wrapper]

theorem CellPlace.tag_wrapper (place : CellPlace) (content : List Node) :
    place.tag [w.node content] = place.tag content := by
  rw [CellPlace.tag, CellPlace.tag, isHeaderRow_congr place (descendantsAmong_wrapper w content)]

/-- Wrapped paragraphs in a cell are not rendered. -/
theorem html_wrapped_in_cell (place : CellPlace) (h : place.tag run = place.tag []) :
    (p.withDocument (f.document (body.fill [place.table [w.node run]]))).html =
      (p.withDocument (f.document (body.fill [place.table []]))).html := by
  obtain ⟨before, after, hhtml⟩ := place.exists_html p f body
  rw [hhtml, hhtml, place.tag_wrapper, cellPieces_wrapper, h]

/-- Wrapping paragraphs in a cell makes another rendering. -/
theorem html_wrapped_in_cell_iff (place : CellPlace) (h : ∀ n ∈ run, n.isNamed "p" = true) :
    (p.withDocument (f.document (body.fill [place.table [w.node run]]))).html =
      (p.withDocument (f.document (body.fill [place.table run]))).html ↔ run = [] := by
  obtain ⟨before, after, hhtml⟩ := place.exists_html p f body
  rw [hhtml, hhtml, place.tag_wrapper, cellPieces_wrapper]
  constructor
  · intro heq
    -- the tags around the cell are the same, so the paragraphs have none
    have htags := congrArg (List.count '<') heq
    change tags _ = tags _ at htags
    rw [tags_append, tags_append, tags_append, tags_append, tags_cell p place _ h] at htags
    have hparagraphs := two_mul_length_le_tags p run
    exact List.eq_nil_of_length_eq_zero (by omega)
  · rintro rfl
    rfl

end

/-- **Wrappers are transparent in a body, and hide what they hold in a cell.**  Around nodes of a
body, at any depth of other wrappers, a wrapper makes no difference to the HTML.  Around paragraphs
of a cell in a table there it always does, and if the paragraphs are not what makes the row a header
row, the HTML is that of the document without them. -/
theorem html_wrapper (p : Package) (f : Frame) (body : BodyPlace) (w : Wrapper) {run : List Node}
    (h : ∀ n ∈ run, n.isNamed "p" = true) :
    (p.withDocument (f.document (body.fill [w.node run]))).html =
        (p.withDocument (f.document (body.fill run))).html ∧
      ∀ place : CellPlace,
        ((p.withDocument (f.document (body.fill [place.table [w.node run]]))).html =
            (p.withDocument (f.document (body.fill [place.table run]))).html ↔ run = []) ∧
          (place.tag run = place.tag [] →
            (p.withDocument (f.document (body.fill [place.table [w.node run]]))).html =
              (p.withDocument (f.document (body.fill [place.table []]))).html) :=
  ⟨html_wrapped_in_body p f body w, fun place =>
    ⟨html_wrapped_in_cell_iff p f body w place h, html_wrapped_in_cell p f body w place⟩⟩

/-- A paragraph of one run with a text. -/
def shownParagraph (s : String) : Node :=
  .element "p" [] [.element "r" [] [.element "t" [] [.text s]]]

/-- The empty package. -/
def emptyPackage : Package :=
  ⟨.element "document" [] [], [], []⟩

/-- A document with nothing but a body. -/
def bareFrame : Frame :=
  ⟨"document", [], [], [], [], List.forall_mem_nil _⟩

/-- The cell of a table that has no other. -/
def onlyCell : CellPlace :=
  ⟨[], [], [], [], [], [], [], [], []⟩

/-- A content control with a property. -/
def aliasControl : Wrapper :=
  .control [] ⟨[.element "sdtPr" [] [.element "alias" [("val", "name")] []]], by decide, rfl⟩ []

/-- A control around a paragraph makes no difference in a body, and empties a cell. -/
theorem html_wrapper_aliasControl :
    (∀ n ∈ [shownParagraph "a"], n.isNamed "p" = true) ∧
      (emptyPackage.withDocument (bareFrame.document
          ((BodyPlace.here [] []).fill [aliasControl.node [shownParagraph "a"]]))).html =
        (emptyPackage.withDocument (bareFrame.document
          ((BodyPlace.here [] []).fill [shownParagraph "a"]))).html ∧
      (emptyPackage.withDocument (bareFrame.document
          ((BodyPlace.here [] []).fill
            [onlyCell.table [aliasControl.node [shownParagraph "a"]]]))).html ≠
        (emptyPackage.withDocument (bareFrame.document
          ((BodyPlace.here [] []).fill [onlyCell.table [shownParagraph "a"]]))).html ∧
      (emptyPackage.withDocument (bareFrame.document
          ((BodyPlace.here [] []).fill
            [onlyCell.table [aliasControl.node [shownParagraph "a"]]]))).html =
        "<table><tr><td></td></tr></table>".toList := by
  have hrun : ∀ n ∈ [shownParagraph "a"], n.isNamed "p" = true := by decide
  obtain ⟨hbody, hcell⟩ :=
    html_wrapper emptyPackage bareFrame (.here [] []) aliasControl hrun
  obtain ⟨hiff, hwithout⟩ := hcell onlyCell
  refine ⟨hrun, hbody, fun heq => List.cons_ne_nil _ _ (hiff.mp heq), ?_⟩
  rw [hwithout (by decide)]
  decide

end Interdoc.Docx

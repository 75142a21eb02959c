import Interdoc.Proofs.Docx.ShownText
import Interdoc.Proofs.Docx.WellNested
import Interdoc.Proofs.Xml.Places

/-!
# Rendering and bare text

The bare text of a package holds the text of every paragraph, wherever it stands; the rendering
follows the structure of the body.  In a `Regular` document both come upon the same paragraphs, and
in these upon the same texts, so they show the same characters in the same order
(`dereference_stripTags_html`).

In a regular document paragraphs stand only where the rendering looks for them, which `standing?`
finds out from the path that leads to them, and texts only in runs.  Both are facts about paths, so
they are handed down from the document to the body, to wrappers and tables, and to paragraphs and
their parts.
-/

namespace Interdoc.Docx

open Html (Piece)
open Text (withoutBlanks)
open Xml (Node)
open Xml.Node (Everywhere descendantsAmong everywhere_cons)

/-! ### Regular documents -/

/-- Where a paragraph can stand. -/
inductive Standing where
  | body
  | cell
  deriving DecidableEq, Repr

/-- Where something stands that a path leads to from the body: in the body itself, perhaps in markup
that is looked through, or in a cell of a table that stands there. -/
def standing? : (path : List Node) → Option Standing
  | [] => some .body
  | node :: path =>
    if node.isNamed "ins" || node.isNamed "customXml" then standing? path
    else if node.isNamed "sdt" then
      match path with
      | [] => none
      | content :: path =>
        if content.isNamed "sdtContent" && (node.childrenNamed "sdtContent").length == 1 then
          standing? path
        else none
    else if node.isNamed "tbl" then
      match path with
      | [row, cell] => if row.isNamed "tr" && cell.isNamed "tc" then some .cell else none
      | _ => none
    else none

/-- Where something stands that a path leads to from the root, which is on the path. -/
def documentStanding? : (path : List Node) → Option Standing
  | _ :: body :: path => if body.isNamed "body" then standing? path else none
  | _ => none

/-- The text of a paragraph, or of another element. -/
def paragraphText (paragraph : Node) : List Char :=
  (paragraph.descendants "t").flatMap fun t => t.ownText.toList

/-- A path leads to a part of a run that is not in the properties of a paragraph or a run. -/
def IsRunPath (path : List Node) : Prop :=
  path.getLast?.any (Node.isNamed "r") = true ∧
    ∀ outer ∈ path, outer.isNamed "pPr" = false ∧ outer.isNamed "rPr" = false

instance (path : List Node) : Decidable (IsRunPath path) :=
  inferInstanceAs (Decidable (_ ∧ _))

/-- A paragraph has no text if it is a rule, which it is by its style unless it is numbered. -/
def KeepsText (paragraph : Node) : Prop :=
  numberingOf? paragraph = none → ParagraphKind.ofStyle (styleOf paragraph) = .rule →
    Text.isBlank (paragraphText paragraph) = true

instance (paragraph : Node) : Decidable (KeepsText paragraph) :=
  inferInstanceAs (Decidable (_ → _ → _))

/-- Texts stand in runs and outside of their properties, no run stands in another one, and there is
nothing drawn. -/
structure RegularParts (nodes : List Node) : Prop where
  texts : Everywhere (fun path node => node.isNamed "t" = true → IsRunPath path) nodes
  runs : Everywhere (fun path node => (node :: path).countP (Node.isNamed "r") ≤ 1) nodes
  undrawn : Everywhere
    (fun _ node => node.isNamed "drawing" = false ∧ node.isNamed "pict" = false) nodes

/-- In the document of a package there is one body directly under the root, and all paragraphs stand
in it, or in the cells of tables in it.  No rule in the body has text. -/
structure Regular (document : Node) : Prop extends RegularParts [document] where
  body : (document.childrenNamed "body").length = 1
  paragraphs : Everywhere
    (fun path node => node.isNamed "p" = true → (documentStanding? path).isSome = true) [document]
  rules : Everywhere
    (fun path node => node.isNamed "p" = true → documentStanding? path = some .body →
      KeepsText node) [document]

/-! ### Parts of paragraphs -/

variable {node a : Node} {nodes rest path : List Node} {pkg : Package}

theorem IsRunPath.of_cons_cons {b : Node} (h : IsRunPath (a :: b :: path)) :
    IsRunPath (b :: path) :=
  ⟨h.1, fun outer houter => h.2 outer (List.mem_cons_of_mem a houter)⟩

theorem IsRunPath.tail (h : IsRunPath (a :: path)) (ha : a.isNamed "r" = false) :
    IsRunPath path := by
  cases path with
  | nil =>
    have hlast : a.isNamed "r" = true := h.1
    rw [ha] at hlast
    cases hlast
  | cons b path => exact h.of_cons_cons

theorem IsRunPath.exists_run (h : IsRunPath path) : ∃ run ∈ path, run.isNamed "r" = true := by
  obtain ⟨hlast, -⟩ := h
  cases hrun : path.getLast? with
  | none => rw [hrun] at hlast; cases hlast
  | some run =>
    rw [hrun] at hlast
    exact ⟨run, List.mem_of_getLast? hrun, hlast⟩

theorem countP_tail (h : (node :: a :: path).countP (Node.isNamed "r") ≤ 1) :
    (node :: path).countP (Node.isNamed "r") ≤ 1 :=
  (List.Sublist.countP_le (.cons_cons node (List.sublist_cons_self a path))).trans h

theorem RegularParts.head (h : RegularParts (node :: rest)) : RegularParts [node] :=
  ⟨h.texts.head, h.runs.head, h.undrawn.head⟩

theorem RegularParts.tail (h : RegularParts (node :: rest)) : RegularParts rest :=
  ⟨h.texts.tail, h.runs.tail, h.undrawn.tail⟩

/-- **What is not a run** has regular parts itself. -/
theorem RegularParts.children (h : RegularParts nodes) (hmem : node ∈ nodes)
    (hr : node.isNamed "r" = false) : RegularParts node.children where
  texts := (h.texts.of_mem hmem).2.imp fun _ _ htext ht => (htext ht).tail hr
  runs := (h.runs.of_mem hmem).2.imp fun _ _ => countP_tail
  undrawn := (h.undrawn.of_mem hmem).2

/-- The texts of a run are among its children. -/
theorem RegularParts.descendants_run (h : RegularParts nodes) (hmem : node ∈ nodes)
    (hr : node.isNamed "r" = true) :
    node.descendants "t" = node.children.filter (Node.isNamed "t") := by
  rw [Node.descendants_eq]
  refine Node.descendantsAmong_of_path_eq_nil ?_
  refine ((h.texts.of_mem hmem).2.and (h.runs.of_mem hmem).2).imp fun path t hplace ht => ?_
  cases path with
  | nil => rfl
  | cons outer path =>
    -- the run that the text stands in would be in this one
    have hpos : 0 < (outer :: path).countP (Node.isNamed "r") :=
      List.countP_pos_iff.mpr (hplace.1 ht).of_cons_cons.exists_run
    have hcount : (node :: outer :: path).countP (Node.isNamed "r") ≤ 1 :=
      (List.Sublist.countP_le (List.sublist_cons_self t _)).trans hplace.2
    rw [List.countP_cons_of_pos hr] at hcount
    omega

/-- What a part of a run shows, if nothing is drawn. -/
theorem runPiece?_of_undrawn {part : Node}
    (h : part.isNamed "drawing" = false ∧ part.isNamed "pict" = false) :
    (∀ piece ∈ runPiece? pkg part, (∃ s, piece = .text s) ∨ piece = .void "br" []) ∧
      shown (runPiece? pkg part).toList =
        if part.isNamed "t" then withoutBlanks part.ownText.toList else [] := by
  have hnone : ∀ piece ∈ (none : Option Piece), (∃ s, piece = .text s) ∨ piece = .void "br" [] :=
    fun piece hpiece => absurd hpiece (Option.not_mem_none piece)
  cases part with
  | text s => exact ⟨hnone, rfl⟩
  | element name attributes children =>
    have hdrawn : ¬ (name = "drawing" ∨ name = "pict") := by
      simpa [Node.isNamed, not_or] using h
    -- a text, a tab, a line break; nothing else is shown of what is not drawn
    by_cases ht : name = "t"
    · subst ht
      refine ⟨fun piece hpiece => .inl ⟨_, (Option.some.inj hpiece).symm⟩, ?_⟩
      exact (shown_text _).trans (List.append_nil _)
    · have ht' : ¬ (Node.element name attributes children).isNamed "t" = true := by
        simpa [Node.isNamed] using ht
      rw [runPiece?, if_neg ht, if_neg ht']
      split
      · exact ⟨fun piece hpiece => .inl ⟨_, (Option.some.inj hpiece).symm⟩, by decide⟩
      · split
        · split
          · exact ⟨fun piece hpiece => .inr (Option.some.inj hpiece).symm, rfl⟩
          · exact ⟨hnone, rfl⟩
        · simp only [Bool.or_eq_true, decide_eq_true_eq]
          rw [if_neg hdrawn]
          exact ⟨hnone, rfl⟩

mutual

theorem mem_segmentsOf {P : Piece → Prop} : ∀ node : Node,
    Everywhere (fun _ part => ∀ piece ∈ runPiece? pkg part, P piece) [node] →
      ∀ s ∈ segmentsOf pkg false node, P s.piece
  | .text _, _ => List.forall_mem_nil _
  | .element name attributes children, h => by
    rw [everywhere_cons] at h
    rw [segmentsOf]
    split
    · intro s hs
      obtain ⟨piece, hpiece, rfl⟩ := List.mem_map.mp hs
      obtain ⟨part, hpart, hpart'⟩ := List.mem_filterMap.mp hpiece
      exact (h.2.1.of_mem hpart).1 piece hpart'
    · split
      · exact List.forall_mem_nil _
      · exact mem_segmentsAmong children h.2.1

/-- What holds of the pieces of all nodes holds of those of the runs. -/
theorem mem_segmentsAmong {P : Piece → Prop} : ∀ nodes : List Node,
    Everywhere (fun _ part => ∀ piece ∈ runPiece? pkg part, P piece) nodes →
      ∀ s ∈ segmentsAmong pkg false nodes, P s.piece
  | [], _ => List.forall_mem_nil _
  | node :: rest, h => by
    rw [segmentsAmong, List.forall_mem_append]
    exact ⟨mem_segmentsOf node h.head, mem_segmentsAmong rest h.tail⟩

end

theorem shown_runParts {parts : List Node}
    (h : ∀ part ∈ parts, part.isNamed "drawing" = false ∧ part.isNamed "pict" = false) :
    shown (parts.filterMap (runPiece? pkg)) =
      withoutBlanks ((parts.filter (Node.isNamed "t")).flatMap fun t => t.ownText.toList) := by
  induction parts with
  | nil => rfl
  | cons part parts ih =>
    rw [List.forall_mem_cons] at h
    have hpart : shown (runPiece? pkg part).toList =
        if part.isNamed "t" then withoutBlanks part.ownText.toList else [] :=
      (runPiece?_of_undrawn h.1).2
    have hcons : (part :: parts).filterMap (runPiece? pkg) =
        (runPiece? pkg part).toList ++ parts.filterMap (runPiece? pkg) := by
      rw [List.filterMap_cons]
      cases runPiece? pkg part <;> rfl
    rw [hcons, shown_append, hpart, ih h.2, List.filter_cons]
    split
    · rw [List.flatMap_cons, Text.withoutBlanks_append]
    · rfl

theorem shown_run (h : RegularParts nodes) (hmem : node ∈ nodes) (hr : node.isNamed "r" = true) :
    shown ((runSegments pkg node false).map Segment.piece) =
      withoutBlanks (paragraphText node) := by
  have hpieces : (runSegments pkg node false).map Segment.piece =
      node.children.filterMap (runPiece? pkg) := by
    rw [runSegments, List.map_map]
    exact List.map_id _
  rw [hpieces, paragraphText, h.descendants_run hmem hr]
  exact shown_runParts fun part hpart => ((h.undrawn.of_mem hmem).2.of_mem hpart).1

mutual

theorem shown_segmentsOf : ∀ node : Node, RegularParts [node] →
    shown ((segmentsOf pkg false node).map Segment.piece) = withoutBlanks (paragraphText node)
  | .text _, _ => rfl
  | .element name attributes children, h => by
    rw [segmentsOf]
    split
    · next hr => exact shown_run h List.mem_cons_self (by simpa [Node.isNamed] using hr)
    · next hr =>
      have hr' : (Node.element name attributes children).isNamed "r" = false := by
        simpa [Node.isNamed] using hr
      split
      · next hproperties =>
        -- properties hold no texts
        have hnone : descendantsAmong "t" children = [] := by
          rw [Node.descendantsAmong_eq_nil_iff]
          refine (everywhere_cons.mp h.texts).2.1.imp fun path t htext => ?_
          rw [← Bool.not_eq_true]
          intro ht
          have hnot : ¬ (name = "pPr" ∨ name = "rPr") := by
            simpa [Node.isNamed, not_or] using (htext ht).2 _ List.mem_cons_self
          exact hnot (by simpa using hproperties)
        rw [paragraphText, Node.descendants, hnone]
        rfl
      · exact shown_runPieces children (h.children List.mem_cons_self hr')

/-- **The runs in regular parts** show all texts in these. -/
theorem shown_runPieces : ∀ nodes : List Node, RegularParts nodes →
    shown (runPieces pkg nodes) =
      withoutBlanks ((descendantsAmong "t" nodes).flatMap fun t => t.ownText.toList)
  | [], _ => by rw [descendantsAmong]; rfl
  | node :: rest, h => by
    have hself : node.isNamed "t" = false := by
      rw [← Bool.not_eq_true]
      exact fun ht => absurd ((everywhere_cons.mp h.texts).1 ht).1 (by simp)
    have hcons : runPieces pkg (node :: rest) =
        (segmentsOf pkg false node).map Segment.piece ++ runPieces pkg rest := List.map_append
    rw [hcons, shown_append, shown_segmentsOf node h.head, shown_runPieces rest h.tail,
      Node.descendantsAmong_cons_of_not hself, List.flatMap_append, Text.withoutBlanks_append]
    rfl

end

/-! ### Paragraphs -/

/-- **The content of a paragraph** shows its text. -/
theorem shown_contentOf_regular (h : RegularParts node.children) :
    shown (contentOf pkg node) = withoutBlanks (paragraphText node) := by
  rw [shown_contentOf, shown_runPieces _ h, paragraphText, Node.descendants_eq]

/-- **A paragraph as a line of code** has its text. -/
theorem withoutBlanks_codeLineOf (h : RegularParts node.children) :
    withoutBlanks (codeLineOf pkg node) = withoutBlanks (paragraphText node) := by
  have hpieces : ∀ piece ∈ runPieces pkg node.children,
      (∃ s, piece = .text s) ∨ piece = .void "br" [] := by
    rw [runPieces, List.forall_mem_map]
    exact mem_segmentsAmong _ (h.undrawn.imp fun _ _ hpart => (runPiece?_of_undrawn hpart).1)
  have hcontent : shown (contentOf pkg node) = withoutBlanks (paragraphText node) :=
    shown_contentOf_regular h
  rw [codeLineOf, ← hcontent, shown_contentOf]
  exact withoutBlanks_unescapeCode hpieces

/-- **A paragraph in the body** shows its text, whatever its kind. -/
theorem shown_ofNode (h : RegularParts node.children) (hrule : KeepsText node) :
    BodyItem.shown (.paragraph (.ofNode pkg node)) = withoutBlanks (paragraphText node) := by
  have hcontent : shown (contentOf pkg node) = withoutBlanks (paragraphText node) :=
    shown_contentOf_regular h
  have hnumbering : (Paragraph.ofNode pkg node).numbering? = numberingOf? node := rfl
  have hkind : (Paragraph.ofNode pkg node).kind = .ofStyle (styleOf node) := rfl
  rw [BodyItem.shown, hnumbering, hkind]
  split
  · exact withoutBlanks_codeLineOf h
  · next hnone hstyle => exact (Text.withoutBlanks_eq_nil_iff.mpr (hrule hnone hstyle)).symm
  · exact hcontent

/-! ### Tables -/

theorem shown_cellPieces {cell : Node} (hparts : RegularParts cell.children) (tag : String)
    (h : Everywhere (fun path q => q.isNamed "p" = true → path = []) cell.children) :
    shown (cellPieces pkg tag cell) =
      (cell.descendants "p").flatMap fun q => withoutBlanks (paragraphText q) := by
  rw [Node.descendants_eq, Node.descendantsAmong_of_path_eq_nil h, cellPieces]
  simp only [List.cons_append, shown_start, shown_append, shown_finish, shown_nil,
    List.append_nil, shown_flatMap, shown_element]
  refine List.flatMap_congr fun q hq => ?_
  obtain ⟨hmem, hname⟩ := List.mem_filter.mp hq
  exact shown_contentOf_regular (hparts.children hmem (Node.isNamed_of_ne hname (by decide)))

theorem shown_rowPieces {row : Node} (hparts : RegularParts row.children)
    (h : Everywhere (fun path q => q.isNamed "p" = true →
      ∃ cell, path = [cell] ∧ cell.isNamed "tc" = true) row.children) :
    shown (rowPieces pkg row) =
      (row.descendants "p").flatMap fun q => withoutBlanks (paragraphText q) := by
  rw [Node.descendants_eq, Node.descendantsAmong_of_head (h.imp fun path q hpath hq => ?_),
    rowPieces, shown_element, shown_flatMap, List.flatMap_assoc]
  · refine List.flatMap_congr fun cell hcell => ?_
    obtain ⟨hmem, hname⟩ := List.mem_filter.mp hcell
    refine shown_cellPieces (hparts.children hmem (Node.isNamed_of_ne hname (by decide))) _ ?_
    refine (h.of_mem hmem).2.imp fun path q hpath hq => ?_
    obtain ⟨_, heq, -⟩ := hpath hq
    exact (List.cons.inj heq).2
  · obtain ⟨cell, rfl, hcell⟩ := hpath hq
    exact ⟨cell, rfl, hcell⟩

/-- **A table** shows the texts of its paragraphs. -/
theorem shown_tablePieces {table : Node} (hparts : RegularParts table.children)
    (h : Everywhere (fun path q => q.isNamed "p" = true →
      ∃ row cell, path = [row, cell] ∧ row.isNamed "tr" = true ∧ cell.isNamed "tc" = true)
        table.children) :
    shown (tablePieces pkg table) =
      (table.descendants "p").flatMap fun q => withoutBlanks (paragraphText q) := by
  rw [Node.descendants_eq, Node.descendantsAmong_of_head (h.imp fun path q hpath hq => ?_),
    tablePieces, shown_element, shown_flatMap, List.flatMap_assoc]
  · refine List.flatMap_congr fun row hrow => ?_
    obtain ⟨hmem, hname⟩ := List.mem_filter.mp hrow
    refine shown_rowPieces (hparts.children hmem (Node.isNamed_of_ne hname (by decide))) ?_
    refine (h.of_mem hmem).2.imp fun path q hpath hq => ?_
    obtain ⟨_, cell, heq, -, hcell⟩ := hpath hq
    exact ⟨cell, (List.cons.inj heq).2, hcell⟩
  · obtain ⟨row, cell, rfl, hrow, -⟩ := hpath hq
    exact ⟨row, rfl, hrow⟩

/-! ### The body -/

/-- A path leads to a paragraph that is looked for, and its text is kept. -/
def IsLookedFor (path : List Node) (paragraph : Node) : Prop :=
  (standing? path).isSome = true ∧ (standing? path = some .body → KeepsText paragraph)

/-- Nodes of a body, or of a part of it that is looked through, with paragraphs only where they are
looked for. -/
structure RegularBlocks (nodes : List Node) : Prop extends RegularParts nodes where
  paragraphs : Everywhere (fun path q => q.isNamed "p" = true → IsLookedFor path q) nodes

/-- The children of a content control, with paragraphs only in its content, of which there is one
then. -/
structure RegularControl (nodes : List Node) : Prop extends RegularParts nodes where
  paragraphs : Everywhere (fun path q => q.isNamed "p" = true →
    (nodes.filter (Node.isNamed "sdtContent")).length = 1 ∧
      ∃ content inner, path = content :: inner ∧ content.isNamed "sdtContent" = true ∧
        IsLookedFor inner q) nodes

theorem RegularBlocks.head (h : RegularBlocks (node :: rest)) : RegularBlocks [node] :=
  ⟨h.toRegularParts.head, h.paragraphs.head⟩

theorem RegularBlocks.tail (h : RegularBlocks (node :: rest)) : RegularBlocks rest :=
  ⟨h.toRegularParts.tail, h.paragraphs.tail⟩

/-- Nothing is looked for in an element without a meaning of its own. -/
theorem standing?_of_other
    (h : ∀ name ∈ ["ins", "customXml", "sdt", "tbl"], node.isNamed name = false)
    (path : List Node) : standing? (node :: path) = none := by
  rw [standing?.eq_def]
  simp [h]

/-- Markup around a part of the body is looked through. -/
theorem standing?_of_markup (h : node.isNamed "ins" = true ∨ node.isNamed "customXml" = true)
    (path : List Node) : standing? (node :: path) = standing? path := by
  rw [standing?.eq_def]
  simp [h]

/-- The paragraphs of a table are in its cells. -/
theorem path_of_table (hname : node.isNamed "tbl" = true)
    (h : (standing? (node :: path)).isSome = true) :
    ∃ row cell, path = [row, cell] ∧ row.isNamed "tr" = true ∧ cell.isNamed "tc" = true := by
  rw [standing?.eq_def] at h
  simp only [Node.isNamed_of_ne hname (show "tbl" ≠ "ins" by decide),
    Node.isNamed_of_ne hname (show "tbl" ≠ "customXml" by decide),
    Node.isNamed_of_ne hname (show "tbl" ≠ "sdt" by decide), hname, Bool.or_self,
    Bool.false_eq_true, if_false, if_true] at h
  split at h
  · next row cell =>
    split at h
    · next hcell =>
      rw [Bool.and_eq_true] at hcell
      exact ⟨row, cell, rfl, hcell.1, hcell.2⟩
    · cases h
  · cases h

/-- The paragraphs of a content control are in its only content. -/
theorem path_of_control (hname : node.isNamed "sdt" = true)
    (h : (standing? (node :: path)).isSome = true) :
    (node.childrenNamed "sdtContent").length = 1 ∧
      ∃ content inner, path = content :: inner ∧ content.isNamed "sdtContent" = true ∧
        standing? (node :: path) = standing? inner := by
  rw [standing?.eq_def] at h ⊢
  simp only [Node.isNamed_of_ne hname (show "sdt" ≠ "ins" by decide),
    Node.isNamed_of_ne hname (show "sdt" ≠ "customXml" by decide), hname, Bool.or_self,
    Bool.false_eq_true, if_false, if_true] at h ⊢
  split at h
  · cases h
  · next content inner =>
    split at h
    · next hcontent =>
      rw [Bool.and_eq_true, beq_iff_eq] at hcontent
      exact ⟨hcontent.2, content, inner, rfl, hcontent.1, by simp [hcontent]⟩
    · cases h

/-- In what nothing is looked for, there is no paragraph. -/
theorem RegularBlocks.descendants_eq_nil (h : RegularBlocks nodes) (hmem : node ∈ nodes)
    (hnone : ∀ path, standing? (node :: path) = none) : node.descendants "p" = [] := by
  rw [Node.descendants_eq, Node.descendantsAmong_eq_nil_iff]
  refine (h.paragraphs.of_mem hmem).2.imp fun path q hq => ?_
  rw [← Bool.not_eq_true]
  intro hname
  have hsome := (hq hname).1
  rw [hnone] at hsome
  cases hsome

/-- **Markup that is looked through** has regular blocks in it. -/
theorem RegularBlocks.markup (h : RegularBlocks nodes) (hmem : node ∈ nodes)
    (hname : node.isNamed "ins" = true ∨ node.isNamed "customXml" = true) :
    RegularBlocks node.children where
  toRegularParts := h.toRegularParts.children hmem <| hname.elim
    (Node.isNamed_of_ne · (by decide)) (Node.isNamed_of_ne · (by decide))
  paragraphs := (h.paragraphs.of_mem hmem).2.imp fun path q hq => by
    rwa [IsLookedFor, standing?_of_markup hname] at hq

/-- **A content control** is regular. -/
theorem RegularBlocks.control (h : RegularBlocks nodes) (hmem : node ∈ nodes)
    (hname : node.isNamed "sdt" = true) : RegularControl node.children where
  toRegularParts := h.toRegularParts.children hmem (Node.isNamed_of_ne hname (by decide))
  paragraphs := (h.paragraphs.of_mem hmem).2.imp fun path q hq hq' => by
    have hlooked := hq hq'
    obtain ⟨hsingle, content, inner, rfl, hcontent, hstanding⟩ := path_of_control hname hlooked.1
    rw [IsLookedFor, hstanding] at hlooked
    exact ⟨hsingle, content, inner, rfl, hcontent, hlooked⟩

/-- No child of a content control is a paragraph. -/
theorem RegularControl.isNamed_head (h : RegularControl (node :: rest)) :
    node.isNamed "p" = false := by
  rw [← Bool.not_eq_true]
  intro hname
  obtain ⟨-, _, _, hpath, -⟩ := (everywhere_cons.mp h.paragraphs).1 hname
  cases hpath

/-- **The content of a content control** has regular blocks. -/
theorem RegularControl.blocks (h : RegularControl (node :: rest))
    (hname : node.isNamed "sdtContent" = true) : RegularBlocks node.children where
  toRegularParts :=
    h.toRegularParts.children List.mem_cons_self (Node.isNamed_of_ne hname (by decide))
  paragraphs := (everywhere_cons.mp h.paragraphs).2.1.imp fun path q hq hq' => by
    obtain ⟨-, _, _, hpath, -, hlooked⟩ := hq hq'
    cases hpath
    exact hlooked

/-- Behind its content there is no paragraph, since that would be in a second content. -/
theorem RegularControl.descendantsAmong_rest (h : RegularControl (node :: rest))
    (hname : node.isNamed "sdtContent" = true) : descendantsAmong "p" rest = [] := by
  rw [Node.descendantsAmong_eq_nil_iff]
  refine (h.paragraphs.tail.and (Node.everywhere_mem_of_path rest)).imp fun path q hq => ?_
  rw [← Bool.not_eq_true]
  intro hq'
  obtain ⟨hsingle, content, _, rfl, hother, -⟩ := hq.1 hq'
  rw [List.filter_cons_of_pos hname, List.length_cons, Nat.add_eq_right,
    List.length_eq_zero_iff, List.filter_eq_nil_iff] at hsingle
  exact hsingle content (hq.2 content rfl) hother

/-- There is no paragraph in the other children of a content control. -/
theorem RegularControl.descendants_eq_nil (h : RegularControl (node :: rest))
    (hname : node.isNamed "sdtContent" = false) : node.descendants "p" = [] := by
  rw [Node.descendants_eq, Node.descendantsAmong_eq_nil_iff]
  refine (everywhere_cons.mp h.paragraphs).2.1.imp fun path q hq => ?_
  rw [← Bool.not_eq_true]
  intro hq'
  obtain ⟨-, _, _, hpath, hother, -⟩ := hq hq'
  cases hpath
  rw [hname] at hother
  cases hother

theorem RegularControl.tail (h : RegularControl (node :: rest))
    (hname : node.isNamed "sdtContent" = false) : RegularControl rest where
  toRegularParts := h.toRegularParts.tail
  paragraphs := by
    have hrest := h.paragraphs.tail
    rwa [List.filter_cons_of_neg (by rw [hname]; exact Bool.false_ne_true)] at hrest

/-- **A paragraph of a body** shows its text. -/
theorem shown_paragraph (h : RegularBlocks [node]) (hname : node.isNamed "p" = true) :
    BodyItem.shown (.paragraph (.ofNode pkg node)) =
      (descendantsAmong "p" [node]).flatMap fun q => withoutBlanks (paragraphText q) := by
  have hmem : node ∈ [node] := List.mem_cons_self
  have hnone : node.descendants "p" = [] :=
    h.descendants_eq_nil hmem (standing?_of_other (by simp [Node.isNamed_of_ne hname]))
  have hself : descendantsAmong "p" [node] = [node] := by
    rw [descendantsAmong, hname, if_pos rfl, hnone, descendantsAmong]
    rfl
  rw [hself, List.flatMap_singleton]
  exact shown_ofNode (h.toRegularParts.children hmem (Node.isNamed_of_ne hname (by decide)))
    (((h.paragraphs.of_mem hmem).1 hname).2 rfl)

/-- **A table of a body** shows the texts of its paragraphs. -/
theorem shown_table (h : RegularBlocks nodes) (hmem : node ∈ nodes)
    (hname : node.isNamed "tbl" = true) :
    shown (tablePieces pkg node) =
      (node.descendants "p").flatMap fun q => withoutBlanks (paragraphText q) :=
  shown_tablePieces (h.toRegularParts.children hmem (Node.isNamed_of_ne hname (by decide)))
    ((h.paragraphs.of_mem hmem).2.imp fun _ _ hq hq' => path_of_table hname (hq hq').1)

mutual

theorem shown_itemsOf : ∀ node : Node, RegularBlocks [node] →
    (itemsOf pkg node).flatMap BodyItem.shown =
      (descendantsAmong "p" [node]).flatMap fun q => withoutBlanks (paragraphText q)
  | .text _, _ => by rw [itemsOf]; rfl
  | .element name attributes children, h => by
    have hmem : Node.element name attributes children ∈ [Node.element name attributes children] :=
      List.mem_cons_self
    have hnamed (other : String) :
        (Node.element name attributes children).isNamed other = true ↔ name = other := beq_iff_eq
    -- a paragraph, a table, a content control, markup around blocks, or anything else
    rw [itemsOf]
    split
    · next hp =>
      rw [List.flatMap_singleton]
      exact shown_paragraph h ((hnamed "p").mpr hp)
    · next hp =>
      have hp' : (Node.element name attributes children).isNamed "p" = false := by
        rwa [← Bool.not_eq_true, hnamed]
      rw [Node.descendantsAmong_singleton_of_not hp']
      split
      · next htable =>
        rw [List.flatMap_singleton]
        exact shown_table h hmem ((hnamed "tbl").mpr htable)
      · next htable =>
        split
        · next hcontrol =>
          exact shown_controlItems children (h.control hmem ((hnamed "sdt").mpr hcontrol))
        · next hcontrol =>
          split
          · next hmarkup =>
            refine shown_itemsAmong children (h.markup hmem ?_)
            simpa [hnamed] using hmarkup
          · next hmarkup =>
            have hnone : (Node.element name attributes children).descendants "p" = [] :=
              h.descendants_eq_nil hmem <| standing?_of_other <| by
                simpa [Node.isNamed, htable, hcontrol] using hmarkup
            rw [hnone]
            rfl

/-- **The items in a body** show the texts of its paragraphs, in their order. -/
theorem shown_itemsAmong : ∀ nodes : List Node, RegularBlocks nodes →
    (itemsAmong pkg nodes).flatMap BodyItem.shown =
      (descendantsAmong "p" nodes).flatMap fun q => withoutBlanks (paragraphText q)
  | [], _ => by rw [itemsAmong, descendantsAmong]; rfl
  | node :: rest, h => by
    rw [itemsAmong, List.flatMap_append, shown_itemsOf node h.head, shown_itemsAmong rest h.tail,
      Node.descendantsAmong_cons "p" node rest, List.flatMap_append]

/-- A content control shows what is in its content. -/
theorem shown_controlItems : ∀ nodes : List Node, RegularControl nodes →
    (controlItems pkg nodes).flatMap BodyItem.shown =
      (descendantsAmong "p" nodes).flatMap fun q => withoutBlanks (paragraphText q)
  | [], _ => by rw [controlItems, descendantsAmong]; rfl
  | .text s :: rest, h => by
    rw [controlItems, shown_controlItems rest (h.tail rfl),
      Node.descendantsAmong_cons_of_not h.isNamed_head, h.descendants_eq_nil rfl, List.nil_append]
  | .element name attributes children :: rest, h => by
    rw [controlItems, Node.descendantsAmong_cons_of_not h.isNamed_head]
    split
    · next hcontent =>
      have hname : (Node.element name attributes children).isNamed "sdtContent" = true :=
        beq_iff_eq.mpr hcontent
      rw [shown_itemsAmong children (h.blocks hname), h.descendantsAmong_rest hname,
        List.append_nil, Node.descendants]
    · next hcontent =>
      have hname : (Node.element name attributes children).isNamed "sdtContent" = false :=
        beq_eq_false_iff_ne.mpr hcontent
      rw [shown_controlItems rest (h.tail hname), h.descendants_eq_nil hname, List.nil_append]

end

/-! ### Documents -/

variable {document : Node}

/-- **The body of a regular document** has regular blocks. -/
theorem Regular.exists_body (h : Regular document) :
    ∃ body, document.childrenNamed "body" = [body] ∧ RegularBlocks body.children := by
  obtain ⟨body, hbody⟩ := List.length_eq_one_iff.mp h.body
  obtain ⟨hmem, hname⟩ := List.mem_filter.mp (hbody ▸ List.mem_singleton_self body)
  have hr : body.isNamed "r" = false := Node.isNamed_of_ne hname (by decide)
  -- what holds of a path from the root holds of the path from the body that it ends with
  have hinner {P : List Node → Node → Prop} (hP : Everywhere P [document]) :
      Everywhere (fun path => P (document :: body :: path)) body.children :=
    ((hP.of_mem List.mem_cons_self).2.of_mem hmem).2
  have hstanding (path : List Node) :
      documentStanding? (document :: body :: path) = standing? path := if_pos hname
  refine ⟨body, hbody, ⟨?_, ?_, hinner h.undrawn⟩, ?_⟩
  · exact (hinner h.texts).imp fun _ _ htext ht => (htext ht).of_cons_cons.tail hr
  · exact (hinner h.runs).imp fun _ _ hcount => countP_tail (countP_tail hcount)
  · refine ((hinner h.paragraphs).and (hinner h.rules)).imp fun path q hq hname => ?_
    rw [hstanding] at hq
    exact ⟨hq.1 hname, hq.2 hname⟩

/-- The paragraphs of a regular document are those of its body. -/
theorem Regular.descendants_eq (h : Regular document) {body : Node}
    (hbody : document.childrenNamed "body" = [body]) :
    document.descendants "p" = descendantsAmong "p" body.children := by
  have hhead : Everywhere (fun path q => q.isNamed "p" = true →
      ∃ first ∈ path.head?, first.isNamed "body" = true) document.children := by
    refine (h.paragraphs.of_mem List.mem_cons_self).2.imp fun path q hq hname => ?_
    have hstanding := hq hname
    cases path with
    | nil => cases hstanding
    | cons first path =>
      rw [documentStanding?] at hstanding
      split at hstanding
      · next hfirst => exact ⟨first, rfl, hfirst⟩
      · cases hstanding
  rw [Node.descendants_eq, Node.descendantsAmong_of_head hhead, ← Node.childrenNamed, hbody,
    List.flatMap_singleton, Node.descendants_eq]

/-- **The rendering of a regular document holds the bare text.**  Without its tags and with its
references replaced, it has the same characters in the same order, apart from blanks. -/
theorem dereference_stripTags_html (p : Package) (h : Regular p.document) :
    withoutBlanks (Html.dereference (Html.stripTags p.html)) = withoutBlanks p.rawText := by
  obtain ⟨body, hbody, hblocks⟩ := h.exists_body
  have hmoves : Html.Moves p.pieces [] [] :=
    Context.moves_render (List.forall_mem_nil _) (wellNested_bodyItems p)
  have hchild : p.document.child? "body" = some body := by
    rw [Node.child?, ← List.head?_filter]
    exact congrArg List.head? hbody
  have hitems : bodyItems p = itemsAmong p body.children := by
    rw [bodyItems, hchild]
  have hraw : p.rawText = Text.unlines ((p.document.descendants "p").map paragraphText) := rfl
  calc withoutBlanks (Html.dereference (Html.stripTags p.html))
      = shown p.pieces := by
        rw [Package.html, Html.dereference_stripTags_render hmoves.names, shown]
    _ = (bodyItems p).flatMap BodyItem.shown := shown_pieces p
    _ = (p.document.descendants "p").flatMap fun q => withoutBlanks (paragraphText q) := by
        rw [hitems, shown_itemsAmong _ hblocks, h.descendants_eq hbody]
    _ = withoutBlanks p.rawText := by
        rw [hraw, Text.withoutBlanks_unlines, List.flatMap_map]

/-- A paragraph of one run. -/
def oneRun (properties : List Node) (text : String) : Node :=
  .element "p" [] [.element "pPr" [] properties,
    .element "r" [] [.element "t" [] [.text text], .element "br" [] []]]

/-- A package with paragraphs of all kinds, in markup and in a table as well. -/
def mixedPackage : Package where
  document :=
    let style (name : String) : Node := .element "pStyle" [("val", name)] []
    let item : Node := .element "numPr" [] [.element "numId" [("val", "2")] []]
    .element "document" [] [.element "body" []
      [oneRun [style "Heading1"] "A & B", oneRun [style "CodeBlock"] "x < y",
        oneRun [style "CodeBlock"] "&lt;", oneRun [style "Blockquote"] "q", oneRun [item] "i",
        oneRun [style "ListParagraph"] "c", .element "ins" [] [oneRun [item] "j"],
        .element "tbl" [] [.element "tr" [] [.element "tc" [] [oneRun [] "k", oneRun [] "l"]]],
        .element "sdt" [] [.element "sdtPr" [] [], .element "sdtContent" [] [oneRun [] "m"]],
        oneRun [style "HorizontalLine"] ""]]
  relationships := []
  numbering := []

theorem dereference_stripTags_html_mixedPackage :
    Regular mixedPackage.document ∧
      withoutBlanks (Html.dereference (Html.stripTags mixedPackage.html)) =
        withoutBlanks mixedPackage.rawText ∧
      withoutBlanks mixedPackage.rawText = "A&Bx<y&lt;qicjklm".toList := by
  have hregular : Regular mixedPackage.document :=
    ⟨⟨by decide +kernel, by decide +kernel, by decide +kernel⟩, by decide +kernel,
      by decide +kernel, by decide +kernel⟩
  exact ⟨hregular, dereference_stripTags_html mixedPackage hregular, by decide +kernel⟩

end Interdoc.Docx

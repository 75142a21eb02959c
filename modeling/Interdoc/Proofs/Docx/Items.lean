import Interdoc.Proofs.Docx.Paragraphs

/-!
# Written bodies

The items of a layout without links have trees, and are read as the items that they say
(`LayoutItem.read`).  Whether a row is a header row is found out by the styles of all paragraphs
below it, so the module begins with the descendants of written nodes.
-/

namespace Interdoc.Docx

open Html (Piece)
open Xml (Node unbroken)
open Xml.Markup (Means means_leaf means_group)

/-! ### Descendants -/

theorem descendantsAmong_eq_flatMap (name : String) (ns : List Node) :
    Node.descendantsAmong name ns =
      ns.flatMap fun n => (if n.isNamed name then [n] else []) ++ n.descendants name := by
  induction ns with
  | nil => rfl
  | cons n ns ih => rw [Node.descendantsAmong, ih]; rfl

/-- There is nothing of a name in the nodes. -/
def Lacks (name : String) (ns : List Node) : Prop :=
  Node.descendantsAmong name ns = []

theorem lacks_append {name : String} {ms ns : List Node} (hm : Lacks name ms) (hn : Lacks name ns) :
    Lacks name (ms ++ ns) := by
  rw [Lacks, descendantsAmong_eq_flatMap, List.flatMap_append, ← descendantsAmong_eq_flatMap,
    ← descendantsAmong_eq_flatMap, hm, hn]
  rfl

theorem lacks_cons {name n : String} {attributes : List (String × String)} {children ns : List Node}
    (hne : n ≠ name) (hc : Lacks name children) (hn : Lacks name ns) :
    Lacks name (.element n attributes children :: ns) := by
  rw [Lacks, Node.descendantsAmong, Node.descendants, hn, List.append_nil, hc, List.append_nil,
    Node.isNamed, if_neg (by simpa using hne)]

theorem lacks_propertyNodes {name n : String} (hne : n ≠ name)
    (attributes : Option (List (String × String))) :
    Lacks name (RunProperties.propertyNodes n attributes) := by
  cases attributes with
  | none => rfl
  | some values => exact lacks_cons hne rfl rfl

theorem lacks_run (r : WrittenRun) : Lacks "p" [r.node] := by
  have hproperties : Lacks "p" r.properties.nodes := by
    rw [RunProperties.nodes]
    refine lacks_append (lacks_append (lacks_append (lacks_append (lacks_append (lacks_append
      (lacks_append (lacks_append (lacks_append ?_ ?_) ?_) ?_) ?_) ?_) ?_) ?_) ?_) ?_
    all_goals exact lacks_propertyNodes (by decide) _
  have hcontent : Lacks "p" [r.content.node] := by
    cases r.content with
    | text s =>
      refine lacks_cons (by decide) ?_ rfl
      rw [Node.ofText]
      split <;> rfl
    | lineBreak => rfl
  exact lacks_cons (by decide) (lacks_cons (by decide) hproperties hcontent) rfl

namespace WrittenParagraph

theorem lacks_propertyNode (p : WrittenParagraph) : Lacks "p" [p.propertyNode] := by
  refine lacks_cons (by decide) (lacks_append (lacks_append (lacks_cons (by decide) rfl ?_) ?_) ?_)
    rfl
  · cases p.style <;> exact rfl
  · cases p.place <;> exact rfl
  · cases p.alignment <;> exact rfl

theorem lacks_runs {next : Nat} (runs : List WrittenRun) :
    Lacks "p" (partNodes next (runs.map .run)) := by
  induction runs with
  | nil => rfl
  | cons r runs ih => exact lacks_append (lacks_run r) ih

theorem descendants_node (next : Nat) {p : WrittenParagraph} (h : p.IsPlain) :
    (p.node next).descendants "p" = [] := by
  obtain ⟨runs, hparts, -⟩ := h
  have hnodes : p.node next =
      .element "p" [] ([p.propertyNode] ++ partNodes next (runs.map .run)) := by
    rw [node, hparts]
    rfl
  rw [hnodes, Node.descendants]
  exact lacks_append p.lacks_propertyNode (lacks_runs runs)

end WrittenParagraph

/-! ### Tables -/

/-- The nodes of the paragraphs of a cell; the number is that of the next link. -/
def paragraphNodes (next : Nat) : List WrittenParagraph → List Node
  | [] => []
  | p :: rest => p.node next :: paragraphNodes (next + (linkTargets p.parts).length) rest

/-- The node of a cell. -/
def cellNode (next : Nat) (cell : List WrittenParagraph) : Node :=
  .element "tc" [] (.element "tcPr" [] [] :: paragraphNodes next cell)

/-- The nodes of the cells of a row. -/
def cellNodes (next : Nat) : List (List WrittenParagraph) → List Node
  | [] => []
  | cell :: rest => cellNode next cell :: cellNodes (next + (cellTargets cell).length) rest

/-- The node of a row. -/
def rowNode (next : Nat) (row : List (List WrittenParagraph)) : Node :=
  .element "tr" [] (.element "trPr" [] [] :: cellNodes next row)

/-- The nodes of the rows of a table. -/
def rowNodes (next : Nat) : List (List (List WrittenParagraph)) → List Node
  | [] => []
  | row :: rest => rowNode next row :: rowNodes (next + (rowTargets row).length) rest

/-- The attributes that a cell is read with: the alignment of its first paragraph. -/
def cellAttributes (cell : List WrittenParagraph) : List (String × String) :=
  match cell.head?.bind (·.alignment) with
  | some a => [("style", "text-align:" ++ a.name)]
  | none => []

/-- The HTML that a cell is read as. -/
def readCell (tag : String) (cell : List WrittenParagraph) : List Piece :=
  .start tag (cellAttributes cell) ::
    (cell.flatMap fun p => Html.element "p" p.read.content) ++ [.finish tag]

/-- Whether a row is read as a header row. -/
def hasHeaderStyle (row : List (List WrittenParagraph)) : Bool :=
  row.any fun cell => cell.any fun p =>
    Text.sameLetters p.styleName.toList "TableHeader".toList

/-- The HTML that a row is read as. -/
def readRow (row : List (List WrittenParagraph)) : List Piece :=
  Html.element "tr" (row.flatMap (readCell (if hasHeaderStyle row then "th" else "td")))

/-- The HTML that a table is read as. -/
def readTable (rows : List (List (List WrittenParagraph))) : List Piece :=
  Html.element "table" (rows.flatMap readRow)

section

variable {cell : List WrittenParagraph} {row : List (List WrittenParagraph)}
  {rows : List (List (List WrittenParagraph))}

theorem means_paragraphs (next : Nat) (h : ∀ p ∈ cell, p.IsPlain) :
    List.Forall₂ Means (paragraphsMarkup next cell) (paragraphNodes next cell) := by
  induction cell generalizing next with
  | nil => exact .nil
  | cons p cell ih =>
    rw [List.forall_mem_cons] at h
    exact .cons (WrittenParagraph.means_node next h.1.hasPlainColors) (ih _ h.2)

theorem means_cells (next : Nat) (h : ∀ cell ∈ row, ∀ p ∈ cell, p.IsPlain) :
    List.Forall₂ Means (cellsMarkup next row) (cellNodes next row) := by
  induction row generalizing next with
  | nil => exact .nil
  | cons cell row ih =>
    rw [List.forall_mem_cons] at h
    exact .cons (means_group (.cons (means_group .nil) (means_paragraphs next h.1))) (ih _ h.2)

theorem means_rows (next : Nat) (h : ∀ row ∈ rows, ∀ cell ∈ row, ∀ p ∈ cell, p.IsPlain) :
    List.Forall₂ Means (rowsMarkup next rows) (rowNodes next rows) := by
  induction rows generalizing next with
  | nil => exact .nil
  | cons row rows ih =>
    rw [List.forall_mem_cons] at h
    exact .cons (means_group (.cons (means_group .nil) (means_cells next h.1))) (ih _ h.2)

theorem exists_tableProperties : ∃ nodes, Means tableProperties (.element "tblPr" [] nodes) :=
  ⟨_, means_group (.cons (means_leaf _ _) (.cons (means_leaf _ _) (.cons (means_group
    (.cons (means_leaf _ _) (.cons (means_leaf _ _) (.cons (means_leaf _ _) (.cons (means_leaf _ _)
      (.cons (means_leaf _ _) (.cons (means_leaf _ _) .nil))))))) .nil)))⟩

theorem childrenNamed_paragraphs (next : Nat) :
    (cellNode next cell).childrenNamed "p" = paragraphNodes next cell := by
  have h : ∀ n ∈ paragraphNodes next cell, n.isNamed "p" = true := by
    induction cell generalizing next with
    | nil => rintro n ⟨⟩
    | cons p cell ih => exact List.forall_mem_cons.mpr ⟨rfl, ih _⟩
  exact List.filter_eq_self.mpr h

theorem childrenNamed_cells (next : Nat) :
    (rowNode next row).childrenNamed "tc" = cellNodes next row := by
  have h : ∀ n ∈ cellNodes next row, n.isNamed "tc" = true := by
    induction row generalizing next with
    | nil => rintro n ⟨⟩
    | cons cell row ih => exact List.forall_mem_cons.mpr ⟨rfl, ih _⟩
  exact List.filter_eq_self.mpr h

theorem filter_rows (next : Nat) :
    (rowNodes next rows).filter (Node.isNamed "tr") = rowNodes next rows := by
  have h : ∀ n ∈ rowNodes next rows, n.isNamed "tr" = true := by
    induction rows generalizing next with
    | nil => rintro n ⟨⟩
    | cons row rows ih => exact List.forall_mem_cons.mpr ⟨rfl, ih _⟩
  exact List.filter_eq_self.mpr h

theorem descendants_paragraphs (next : Nat) (h : ∀ p ∈ cell, p.IsPlain) :
    Node.descendantsAmong "p" (paragraphNodes next cell) = paragraphNodes next cell := by
  induction cell generalizing next with
  | nil => rfl
  | cons p cell ih =>
    rw [List.forall_mem_cons] at h
    rw [paragraphNodes, Node.descendantsAmong, WrittenParagraph.descendants_node next h.1,
      ih _ h.2]
    rfl

theorem any_paragraphs (next : Nat) {q : Node → Bool} {r : WrittenParagraph → Bool}
    (hq : ∀ next p, q (WrittenParagraph.node next p) = r p) :
    (paragraphNodes next cell).any q = cell.any r := by
  induction cell generalizing next with
  | nil => rfl
  | cons p cell ih => rw [paragraphNodes, List.any_cons, List.any_cons, hq, ih]

theorem isHeaderRow_node (next : Nat) (h : ∀ cell ∈ row, ∀ p ∈ cell, p.IsPlain) :
    isHeaderRow (rowNode next row) = hasHeaderStyle row := by
  have hcells : (Node.descendantsAmong "p" (cellNodes next row)).any
      (fun p => Text.sameLetters (styleOf p).toList "TableHeader".toList) =
        hasHeaderStyle row := by
    induction row generalizing next with
    | nil => rfl
    | cons cell row ih =>
      rw [List.forall_mem_cons] at h
      have hcell : (cellNode next cell).descendants "p" = paragraphNodes next cell :=
        descendants_paragraphs next h.1
      rw [cellNodes, Node.descendantsAmong, List.any_append, List.any_append, ih _ h.2, hcell,
        any_paragraphs next fun next p => by rw [WrittenParagraph.styleOf_node]]
      rfl
  have hproperty : (rowNode next row).path? ["trPr", "tblHeader"] = none := rfl
  rw [isHeaderRow, hproperty]
  exact hcells

variable (pkg : Package)

theorem content_paragraphs (next : Nat) (h : ∀ p ∈ cell, p.IsPlain) :
    (paragraphNodes next cell).flatMap (fun q => Html.element "p" (contentOf pkg q)) =
      cell.flatMap fun p => Html.element "p" p.read.content := by
  induction cell generalizing next with
  | nil => rfl
  | cons p cell ih =>
    rw [List.forall_mem_cons] at h
    have hp : contentOf pkg (p.node next) = p.read.content :=
      congrArg Paragraph.content (WrittenParagraph.ofNode_node pkg next h.1)
    rw [paragraphNodes, List.flatMap_cons, List.flatMap_cons, hp, ih _ h.2]

theorem alignment_paragraphs (next : Nat) :
    ((paragraphNodes next cell).head?.bind fun first =>
      first.pathValue? ["pPr", "jc"]).bind justification? =
        (cell.head?.bind (·.alignment)).map Alignment.name := by
  cases cell with
  | nil => rfl
  | cons p cell =>
    rw [paragraphNodes, List.head?_cons, Option.bind_some, WrittenParagraph.alignment_node,
      List.head?_cons, Option.bind_some]
    cases p.alignment with
    | none => rfl
    | some a => cases a <;> rfl

theorem cellPieces_node (next : Nat) (tag : String) (h : ∀ p ∈ cell, p.IsPlain) :
    cellPieces pkg tag (cellNode next cell) = readCell tag cell := by
  rw [cellPieces, childrenNamed_paragraphs, alignment_paragraphs, content_paragraphs pkg next h,
    readCell, cellAttributes]
  cases cell.head?.bind (·.alignment) <;> rfl

theorem rowPieces_node (next : Nat) (h : ∀ cell ∈ row, ∀ p ∈ cell, p.IsPlain) :
    rowPieces pkg (rowNode next row) = readRow row := by
  have hcells (tag : String) :
      (cellNodes next row).flatMap (cellPieces pkg tag) = row.flatMap (readCell tag) := by
    induction row generalizing next with
    | nil => rfl
    | cons cell row ih =>
      rw [List.forall_mem_cons] at h
      rw [cellNodes, List.flatMap_cons, List.flatMap_cons, cellPieces_node pkg next tag h.1,
        ih _ h.2]
  rw [rowPieces, isHeaderRow_node next h, childrenNamed_cells, hcells, readRow]

theorem tablePieces_node (next : Nat) (h : ∀ row ∈ rows, ∀ cell ∈ row, ∀ p ∈ cell, p.IsPlain)
    (properties : List Node) :
    tablePieces pkg (.element "tbl" []
      (.element "tblPr" [] properties :: .element "tblGrid" [] [] :: rowNodes next rows)) =
        readTable rows := by
  have hrows : (rowNodes next rows).flatMap (rowPieces pkg) = rows.flatMap readRow := by
    induction rows generalizing next with
    | nil => rfl
    | cons row rows ih =>
      rw [List.forall_mem_cons] at h
      rw [rowNodes, List.flatMap_cons, List.flatMap_cons, rowPieces_node pkg next h.1, ih _ h.2]
  have hnamed : (Node.element "tbl" []
      (.element "tblPr" [] properties :: .element "tblGrid" [] [] ::
        rowNodes next rows)).childrenNamed "tr" = rowNodes next rows :=
    filter_rows next
  rw [tablePieces, readTable, hnamed, hrows]

end

/-! ### Items -/

/-- An item has no links, and no colours that need references. -/
def LayoutItem.IsPlain : LayoutItem → Prop
  | .paragraph p => p.IsPlain
  | .table rows => ∀ row ∈ rows, ∀ cell ∈ row, ∀ p ∈ cell, p.IsPlain

/-- What an item without links is read as. -/
def LayoutItem.read : LayoutItem → BodyItem
  | .paragraph p => .paragraph p.read
  | .table rows => .table (readTable rows)

theorem itemsAmong_append (pkg : Package) (ms ns : List Node) :
    itemsAmong pkg (ms ++ ns) = itemsAmong pkg ms ++ itemsAmong pkg ns := by
  induction ms with
  | nil => rfl
  | cons m ms ih => rw [List.cons_append, itemsAmong, itemsAmong, ih, List.append_assoc]

/-- **An item without links has a tree that is read as what the item says.** -/
theorem LayoutItem.exists_node (next : Nat) {item : LayoutItem} (h : item.IsPlain) :
    ∃ n, Means (item.markup next) n ∧ ∀ pkg, itemsOf pkg n = [item.read] := by
  cases item with
  | paragraph p =>
    have hcolors := WrittenParagraph.IsPlain.hasPlainColors h
    refine ⟨p.node next, WrittenParagraph.means_node next hcolors, fun pkg => ?_⟩
    rw [LayoutItem.read, ← WrittenParagraph.ofNode_node pkg next h]
    rfl
  | table rows =>
    obtain ⟨properties, hproperties⟩ := exists_tableProperties
    refine ⟨_, means_group (.cons hproperties (.cons (means_group .nil) (means_rows next h))),
      fun pkg => ?_⟩
    rw [LayoutItem.read, ← tablePieces_node pkg next h properties]
    rfl

/-- **A body without links is read item by item.** -/
theorem exists_itemNodes (next : Nat) {items : List LayoutItem} (h : ∀ item ∈ items, item.IsPlain) :
    ∃ ns, List.Forall₂ Means (itemsMarkup next items) ns ∧
      ∀ pkg, itemsAmong pkg ns = items.map LayoutItem.read := by
  induction items generalizing next with
  | nil => exact ⟨[], .nil, fun _ => rfl⟩
  | cons item items ih =>
    rw [List.forall_mem_cons] at h
    obtain ⟨n, hn, hitem⟩ := LayoutItem.exists_node next h.1
    obtain ⟨ns, hns, hitems⟩ := ih (next + item.targets.length) h.2
    refine ⟨n :: ns, .cons hn hns, fun pkg => ?_⟩
    rw [itemsAmong, hitem, hitems, List.map_cons]
    rfl

end Interdoc.Docx

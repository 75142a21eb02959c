import Interdoc.Proofs.Docx.RoundTrip
import Interdoc.Proofs.Docx.Texts

/-!
# Ragged tables

The rows of a table need not be of the same length, and there need not be an alignment for each
column.  A package has the table in its padded form, and so a table of texts is read back as the
normal form of its `paddedTable`: empty paragraphs stand in the cells that are missing or empty, and
columns without an alignment are set to the left, unless no column has one.

Normal form and padding can be exchanged (`paddedTable_normalizeList`), and cells of texts are read
alike to their normal form (`tableItem_alike`).  The rest is known from tables of plain paragraphs.
-/

namespace Interdoc.Docx

open Interdoc (Inline Block Alignment)

/-! ### Normal form -/

theorem filledCell_normalizeList (blocks : List Block) :
    filledCell (Block.normalizeList blocks) = Block.normalizeList (filledCell blocks) := by
  cases blocks <;> rfl

theorem normalizeItems_map_filledCell (cells : List (List Block)) :
    Block.normalizeItems (cells.map filledCell) =
      (cells.map Block.normalizeList).map filledCell := by
  induction cells with
  | nil => rfl
  | cons blocks cells ih =>
    rw [List.map_cons, List.map_cons, List.map_cons, ← ih, filledCell_normalizeList]
    -- a filled cell is not empty, so that nothing has to be put into it
    cases blocks <;> rfl

theorem paddedRow_eq_map (columns : Nat) (cells : List (List Block)) :
    paddedRow columns cells =
      (cells ++ List.replicate (columns - cells.length) []).map filledCell := by
  rw [paddedRow, List.map_append, List.map_replicate]
  rfl

/-- The normal form of a padded row is the padded row with all its cells in normal form. -/
theorem normalizeItems_paddedRow (columns : Nat) (cells : List (List Block)) :
    Block.normalizeItems (paddedRow columns cells) =
      paddedRow columns (cells.map Block.normalizeList) := by
  rw [paddedRow_eq_map, normalizeItems_map_filledCell, paddedRow_eq_map, List.length_map,
    List.map_append, List.map_replicate]
  rfl

theorem columnsOf_map (rows : List (List (List Block))) :
    columnsOf (rows.map (List.map Block.normalizeList)) = columnsOf rows := by
  rw [columnsOf, columnsOf, List.foldl_map]
  simp only [List.length_map]

theorem normalizeRows_map_paddedRow (columns : Nat) (rows : List (List (List Block))) :
    Block.normalizeRows (rows.map (paddedRow columns)) =
      (rows.map (List.map Block.normalizeList)).map (paddedRow columns) := by
  induction rows with
  | nil => rfl
  | cons cells rows ih =>
    rw [List.map_cons, List.map_cons, List.map_cons, Block.normalizeRows,
      normalizeItems_paddedRow, ih]

section

variable {header : Option (List (List Block))} {rows : List (List (List Block))}
  (alignments : Option (List Alignment))

theorem columnsOf_normalizeList :
    columnsOf ((header.map (List.map Block.normalizeList)).toList ++
      rows.map (List.map Block.normalizeList)) = columnsOf (header.toList ++ rows) := by
  rw [Option.toList_map, ← List.map_append, columnsOf_map]

/-- **Normal form and padding can be exchanged.** -/
theorem paddedTable_normalizeList :
    paddedTable (header.map (List.map Block.normalizeList))
        (rows.map (List.map Block.normalizeList)) alignments =
      (paddedTable header rows alignments).normalize := by
  rw [paddedTable, paddedTable, columnsOf_normalizeList]
  cases header with
  | none =>
    simp only [Option.map_none]
    rw [Block.normalize, normalizeRows_map_paddedRow]
  | some cells =>
    simp only [Option.map_some]
    rw [Block.normalize, normalizeItems_paddedRow, normalizeRows_map_paddedRow]

end

/-! ### Cells of texts -/

/-- Rows whose cells hold paragraphs of texts, any number of them. -/
def AreTextRows (rows : List (List (List Block))) : Prop :=
  ∀ cells ∈ rows, ∀ blocks ∈ cells, ∀ b ∈ blocks, isTextParagraph b = true

section

variable {o : Options}

/-- The normal form of a cell of texts can be read. -/
theorem plainCell_normalizeList {blocks : List Block}
    (h : ∀ b ∈ blocks, isTextParagraph b = true) : PlainCell (Block.normalizeList blocks) := by
  refine ⟨?_, Block.normalizeList_isNormal blocks⟩
  rw [Block.normalizeList_eq_map]
  exact List.forall_mem_map.mpr fun b hb => isPlainParagraph_normalize (h b hb)

/-- The paragraphs of a cell of texts are plain, and alike to those of its normal form. -/
theorem cellParagraphs_alike (base : WrittenParagraph) (hbase : base.parts = [])
    {blocks : List Block} (h : ∀ b ∈ blocks, isTextParagraph b = true) :
    (∀ q ∈ cellParagraphs o base blocks, q.IsPlain) ∧
      List.Forall₂ WrittenParagraph.Alike (cellParagraphs o base blocks)
        (cellParagraphs o base (Block.normalizeList blocks)) := by
  rw [Block.normalizeList_eq_map]
  unfold cellParagraphs
  rw [List.isEmpty_map]
  -- a cell without blocks is written as an empty paragraph, in normal form or not
  split
  · have hplain := plain_spec o (show isPlainInlines [] = true from rfl) hbase
    exact ⟨List.forall_mem_singleton.mpr hplain.1, .cons ⟨rfl, rfl, rfl, .refl _⟩ .nil⟩
  · have hspec : ∀ b ∈ blocks, (cellParagraph o base b).IsPlain ∧
        WrittenParagraph.Alike (cellParagraph o base b) (cellParagraph o base b.normalize) := by
      intro b hb
      obtain ⟨xs, rfl, hxs⟩ := exists_of_isTextParagraph (h b hb)
      rw [Block.normalize]
      exact ⟨(text_spec hxs (q := { base with parts := partsAmong o {} xs }) rfl).1,
        alike_paragraph base hxs⟩
    refine ⟨List.forall_mem_map.mpr fun b hb => (hspec b hb).1, ?_⟩
    rw [List.map_map, List.forall₂_map_left_iff, List.forall₂_map_right_iff, List.forall₂_same]
    exact fun b hb => (hspec b hb).2

/-- Cells of paragraphs that are alike are read alike. -/
theorem readCell_alike {cell cell' : List WrittenParagraph} (tag : String)
    (h : List.Forall₂ WrittenParagraph.Alike cell cell') :
    Html.Alike (readCell tag cell) (readCell tag cell') := by
  have hattributes : cellAttributes cell = cellAttributes cell' := by
    unfold cellAttributes
    cases h with
    | nil => rfl
    | cons hfirst _ => rw [List.head?_cons, List.head?_cons, Option.bind_some, Option.bind_some,
        hfirst.alignment]
  unfold readCell
  rw [hattributes]
  exact (Html.Alike.flatMap (fun _ _ hq => hq.content.element "p" []) h).element tag _

theorem tableRow_alike {columns : Nat} (as : List Alignment) (isHeader : Bool)
    (hcolumns : 0 < columns) {cells : List (List Block)}
    (h : ∀ blocks ∈ cells, ∀ b ∈ blocks, isTextParagraph b = true) :
    (∀ cell ∈ tableRow o columns as isHeader cells, ∀ q ∈ cell, q.IsPlain) ∧
      Html.Alike (readRow (tableRow o columns as isHeader cells))
        (readRow (tableRow o columns as isHeader (cells.map Block.normalizeList))) := by
  let base (column : Nat) : WrittenParagraph :=
    { style := if isHeader then some Style.tableHeader else none, alignment := as[column]? }
  have htexts (column : Nat) : ∀ b ∈ (cells[column]?).getD [], isTextParagraph b = true := by
    cases hc : cells[column]? with
    | none => exact List.forall_mem_nil _
    | some blocks => exact h blocks (List.mem_of_getElem? hc)
  have hcell (column : Nat) := cellParagraphs_alike (o := o) (base column) rfl (htexts column)
  have hnormalized (column : Nat) : ((cells.map Block.normalizeList)[column]?).getD [] =
      Block.normalizeList ((cells[column]?).getD []) := by
    rw [List.getElem?_map]
    cases cells[column]? <;> rfl
  constructor
  · exact List.forall_mem_map.mpr fun column _ => (hcell column).1
  · -- both rows have the tag that goes with `isHeader`, whatever is in the cells
    unfold readRow
    rw [hasHeaderStyle_tableRow o as isHeader hcolumns,
      hasHeaderStyle_tableRow o as isHeader hcolumns]
    have halike : List.Forall₂ (List.Forall₂ WrittenParagraph.Alike)
        (tableRow o columns as isHeader cells)
        (tableRow o columns as isHeader (cells.map Block.normalizeList)) := by
      unfold tableRow
      rw [List.forall₂_map_left_iff, List.forall₂_map_right_iff, List.forall₂_same]
      intro column _
      rw [hnormalized]
      exact (hcell column).2
    exact Html.Alike.element "tr" [] (Html.Alike.flatMap (fun _ _ hc => readCell_alike _ hc) halike)

/-- A table of texts is plain, and read alike to the table with all its cells in normal form. -/
theorem tableItem_alike {header : Option (List (List Block))} {rows : List (List (List Block))}
    (alignments : Option (List Alignment)) (hcolumns : 0 < columnsOf (header.toList ++ rows))
    (h : AreTextRows (header.toList ++ rows)) :
    (tableItem o header rows alignments).IsPlain ∧
      Html.Alike (tableItem o header rows alignments).tableHtml
        (tableItem o (header.map (List.map Block.normalizeList))
          (rows.map (List.map Block.normalizeList)) alignments).tableHtml := by
  have hrow (isHeader : Bool) (cells) (hc : cells ∈ header.toList ++ rows) :=
    tableRow_alike (o := o) (alignments.getD []) isHeader hcolumns (h cells hc)
  have hitem (header rows) : tableItem o header rows alignments =
      let row := tableRow o (columnsOf (header.toList ++ rows)) (alignments.getD [])
      .table ((header.map (row true)).toList ++ rows.map (row false)) :=
    rfl
  rw [hitem, hitem, columnsOf_normalizeList]
  generalize columnsOf (header.toList ++ rows) = columns at hrow
  have hheader := fun cells hc => hrow true cells (List.mem_append_left rows hc)
  have hrows := fun cells hc => hrow false cells (List.mem_append_right header.toList hc)
  constructor
  · intro row hr
    rw [List.mem_append, List.mem_map, Option.toList_map, List.mem_map] at hr
    obtain ⟨cells, hc, rfl⟩ | ⟨cells, hc, rfl⟩ := hr
    · exact (hheader cells hc).1
    · exact (hrows cells hc).1
  · refine Html.Alike.element "table" []
      (Html.Alike.flatMap (R := fun r s => Html.Alike (readRow r) (readRow s)) (fun _ _ hr => hr)
        (List.rel_append ?_ ?_))
    · rw [Option.map_map, Option.toList_map, Option.toList_map, List.forall₂_map_left_iff,
        List.forall₂_map_right_iff, List.forall₂_same]
      exact fun cells hc => (hheader cells hc).2
    · rw [List.map_map, List.forall₂_map_left_iff, List.forall₂_map_right_iff, List.forall₂_same]
      exact fun cells hc => (hrows cells hc).2

end

/-! ### Documents -/

end Interdoc.Docx

import Interdoc.Proofs.Docx.PlainHtml

/-!
# The HTML of tables

A table is laid out with as many columns as its longest row has cells; missing and empty cells hold
an empty paragraph.  A row of plain paragraphs is read as a row of exactly these cells
(`readsRows_tableRow`), each with the alignment of its column, and as a header row if it is one.
So the table is read as its `paddedTable` (`reads_tableHtml`), and a rectangular table without empty
cells is read back as it is (`reads_plainTable`).

Padding goes by columns: each row of the layout is a map over `List.range`, and so are the
alignments (`map_range_getElem?`).
-/

namespace Interdoc.Docx

open Interdoc (Inline Block Alignment)
open Html (Piece Reads ReadsCells ReadsRows Row)

/-! ### Cells -/

/-- The blocks of a cell once it is written: an empty cell holds an empty paragraph. -/
def filledCell (blocks : List Block) : List Block :=
  if blocks.isEmpty then [Block.emptyParagraph] else blocks

/-- Blocks are paragraphs of plain text in normal form. -/
def PlainCell (blocks : List Block) : Prop :=
  (∀ b ∈ blocks, isPlainParagraph b = true) ∧ Block.IsNormalList blocks

section

variable (o : Options) {base : WrittenParagraph} {blocks : List Block}

theorem cellParagraphs_ne_nil : cellParagraphs o base blocks ≠ [] := by
  rw [cellParagraphs]
  cases blocks <;> simp

theorem properties_of_mem_cellParagraphs {p : WrittenParagraph}
    (h : p ∈ cellParagraphs o base blocks) :
    p.style = base.style ∧ p.alignment = base.alignment := by
  rw [cellParagraphs] at h
  split at h
  · rw [List.mem_singleton.mp h]
    exact ⟨rfl, rfl⟩
  · obtain ⟨b, -, rfl⟩ := List.mem_map.mp h
    cases b <;> exact ⟨rfl, rfl⟩

theorem cellParagraphs_plain (hbase : base.parts = []) (h : PlainCell blocks) :
    (∀ p ∈ cellParagraphs o base blocks, p.IsPlain) ∧
      Reads ((cellParagraphs o base blocks).flatMap fun p => Html.element "p" p.read.content)
        (filledCell blocks) := by
  rw [cellParagraphs, filledCell]
  split
  · have hp := plain_spec o (show isPlainInlines [] = true from rfl) hbase
    refine ⟨List.forall_mem_singleton.mpr hp.1, ?_⟩
    rw [List.flatMap_singleton, hp.2]
    exact Html.reads_paragraph Html.readsInlines_nil
  · have hspec : ∀ b ∈ blocks, (cellParagraph o base b).IsPlain ∧
        Html.element "p" (cellParagraph o base b).read.content = htmlOf o b := by
      intro b hb
      obtain ⟨xs, rfl, hxs⟩ := exists_of_isPlainParagraph (h.1 b hb)
      have hp := plain_spec o hxs (p := { base with parts := partsAmong o {} xs }) rfl
      exact ⟨hp.1, congrArg (Html.element "p") hp.2⟩
    refine ⟨List.forall_mem_map.mpr fun b hb => (hspec b hb).1, ?_⟩
    rw [List.flatMap_map, List.flatMap_congr fun b hb => (hspec b hb).2, ← htmlOfAll_eq_flatMap]
    exact reads_htmlOfAll fun b hb =>
      reads_plainParagraph (h.1 b hb) (Block.isNormalList_iff.mp h.2 b hb)

theorem cellAlignment?_cellAttributes :
    Html.cellAlignment? (cellAttributes (cellParagraphs o base blocks)) = base.alignment := by
  obtain ⟨p, ps, hp⟩ : ∃ p ps, cellParagraphs o base blocks = p :: ps :=
    List.exists_cons_of_ne_nil (cellParagraphs_ne_nil o)
  have halignment : p.alignment = base.alignment :=
    (properties_of_mem_cellParagraphs o (hp ▸ List.mem_cons_self)).2
  rw [hp, cellAttributes, List.head?_cons, Option.bind_some, halignment]
  cases base.alignment with
  | none => rfl
  | some a => cases a <;> decide

theorem readsCells_readCell (hbase : base.parts = []) (h : PlainCell blocks) (isHeader : Bool) :
    ReadsCells isHeader (readCell (Html.cellTag isHeader) (cellParagraphs o base blocks))
      [(filledCell blocks, base.alignment)] := by
  have halignment : Html.cellAlignment? (cellAttributes (cellParagraphs o base blocks)) =
      base.alignment := cellAlignment?_cellAttributes o
  rw [← halignment]
  exact Html.readsCells_cell (cellParagraphs_plain o hbase h).2

end

/-! ### Rows -/

/-- The cells of a row once it is written, with the alignments of their columns. -/
def filledCells (columns : Nat) (alignments : List Alignment) (cells : List (List Block)) :
    List (List Block × Option Alignment) :=
  (List.range columns).map fun column =>
    (filledCell ((cells[column]?).getD []), alignments[column]?)

section

variable (o : Options) {columns : Nat} (alignments : List Alignment) (isHeader : Bool)
  {cells : List (List Block)}

theorem plainCell_getD (h : ∀ blocks ∈ cells, PlainCell blocks) (column : Nat) :
    PlainCell ((cells[column]?).getD []) := by
  cases hc : cells[column]? with
  | none => exact ⟨by simp, trivial⟩
  | some blocks => exact h blocks (List.mem_of_getElem? hc)

theorem tableRow_isPlain (h : ∀ blocks ∈ cells, PlainCell blocks) :
    ∀ cell ∈ tableRow o columns alignments isHeader cells, ∀ p ∈ cell, p.IsPlain := by
  rw [tableRow]
  exact List.forall_mem_map.mpr fun column _ =>
    (cellParagraphs_plain o rfl (plainCell_getD h column)).1

/-- A row is marked as a header row by the style of its paragraphs. -/
theorem hasHeaderStyle_tableRow (hcolumns : 0 < columns) :
    hasHeaderStyle (tableRow o columns alignments isHeader cells) = isHeader := by
  have hstyle : ∀ cell ∈ tableRow o columns alignments isHeader cells, ∀ p ∈ cell,
      Text.sameLetters p.styleName.toList "TableHeader".toList = isHeader := by
    rw [tableRow]
    refine List.forall_mem_map.mpr fun column _ p hp => ?_
    rw [WrittenParagraph.styleName, (properties_of_mem_cellParagraphs o hp).1]
    have hname :
        Text.sameLetters (Xml.unbroken Style.tableHeader).toList "TableHeader".toList = true ∧
          Text.sameLetters (Xml.unbroken "").toList "TableHeader".toList = false := by decide
    cases isHeader
    · exact hname.2
    · exact hname.1
  have hcell : ∀ cell ∈ tableRow o columns alignments isHeader cells, cell ≠ [] := by
    rw [tableRow]
    exact List.forall_mem_map.mpr fun _ _ => cellParagraphs_ne_nil o
  have hrow : tableRow o columns alignments isHeader cells ≠ [] := by
    rw [tableRow, ne_eq, List.map_eq_nil_iff, List.range_eq_nil]
    omega
  generalize tableRow o columns alignments isHeader cells = row at hstyle hcell hrow
  rw [hasHeaderStyle]
  cases isHeader with
  | false =>
    rw [List.any_eq_false]
    intro cell hc
    rw [Bool.not_eq_true, List.any_eq_false]
    intro p hp
    rw [hstyle cell hc p hp]
    exact Bool.false_ne_true
  | true =>
    obtain ⟨cell, hc⟩ := List.exists_mem_of_ne_nil row hrow
    obtain ⟨p, hp⟩ := List.exists_mem_of_ne_nil cell (hcell cell hc)
    exact List.any_eq_true.mpr ⟨cell, hc, List.any_eq_true.mpr ⟨p, hp, hstyle cell hc p hp⟩⟩

/-- **A row of plain paragraphs is read as its cells**, filled up to the number of columns. -/
theorem readsRows_tableRow (hcolumns : 0 < columns) (h : ∀ blocks ∈ cells, PlainCell blocks) :
    ReadsRows (readRow (tableRow o columns alignments isHeader cells))
      [⟨isHeader, filledCells columns alignments cells⟩] := by
  have htag : (if isHeader then "th" else "td") = Html.cellTag isHeader := rfl
  rw [readRow, hasHeaderStyle_tableRow o alignments isHeader hcolumns, htag, tableRow,
    List.flatMap_map]
  refine Html.readsRows_row ?_ (Html.readsCells_flatMap fun column _ =>
    readsCells_readCell o rfl (plainCell_getD h column) isHeader)
  rw [filledCells, ne_eq, List.map_eq_nil_iff, List.range_eq_nil]
  omega

end

/-! ### Tables -/

/-- The number of columns of a table: the length of its longest row. -/
def columnsOf (rows : List (List (List Block))) : Nat :=
  rows.foldl (fun n row => max n row.length) 0

/-- The rows of a table once it is written. -/
def filledRows (columns : Nat) (header : Option (List (List Block)))
    (rows : List (List (List Block))) (alignments : List Alignment) : List Row :=
  (header.map fun cells => ⟨true, filledCells columns alignments cells⟩).toList ++
    rows.map fun cells => ⟨false, filledCells columns alignments cells⟩

/-! ### Padding -/

/-- What stands in the columns: the entries as far as there are any, and a default behind them. -/
theorem map_range_getElem? {α β : Type} (f : α → β) (default : α) (as : List α) (columns : Nat) :
    (List.range columns).map (fun column => f (as[column]?.getD default)) =
      (as.take columns).map f ++ List.replicate (columns - as.length) (f default) := by
  refine List.ext_getElem (by simp; omega) fun i hi _ => ?_
  rw [List.length_map, List.length_range] at hi
  rw [List.getElem_map, List.getElem_range, List.getElem_append]
  split
  · next h =>
    rw [List.length_map, List.length_take] at h
    rw [List.getElem_map, List.getElem_take, List.getElem?_eq_getElem (by omega),
      Option.getD_some]
  · next h =>
    rw [List.length_map, List.length_take] at h
    rw [List.getElem_replicate, List.getElem?_eq_none (by omega), Option.getD_none]

/-- The cells of a row with one cell for each column.  There is a block in every cell. -/
def paddedRow (columns : Nat) (cells : List (List Block)) : List (List Block) :=
  cells.map filledCell ++ List.replicate (columns - cells.length) [Block.emptyParagraph]

/-- An alignment for each column: those that there are, as far as there are columns, and otherwise
to the left. -/
def paddedAlignments (columns : Nat) (alignments : List Alignment) : List Alignment :=
  alignments.take columns ++ List.replicate (columns - alignments.length) .left

/-- A table with all rows as long as the longest, and with an alignment for each column or none at
all. -/
def paddedTable (header : Option (List (List Block))) (rows : List (List (List Block)))
    (alignments : Option (List Alignment)) : Block :=
  let columns := columnsOf (header.toList ++ rows)
  .table (header.map (paddedRow columns)) (rows.map (paddedRow columns))
    ((alignments.filter fun as => !as.isEmpty).map (paddedAlignments columns))

example : paddedTable (some [[]]) [[[.paragraph [.text "x"]], [.rule]], []] (some [.right]) =
    .table (some [[.paragraph []], [.paragraph []]])
      [[[.paragraph [.text "x"]], [.rule]], [[.paragraph []], [.paragraph []]]]
      (some [.right, .left]) := by decide

theorem le_foldl_max (rows : List (List (List Block))) (n : Nat) :
    n ≤ rows.foldl (fun n row => max n row.length) n ∧
      ∀ cells ∈ rows, cells.length ≤ rows.foldl (fun n row => max n row.length) n := by
  induction rows generalizing n with
  | nil => exact ⟨le_rfl, List.forall_mem_nil _⟩
  | cons row rows ih =>
    obtain ⟨hn, hrows⟩ := ih (max n row.length)
    rw [List.foldl_cons]
    exact ⟨(le_max_left _ _).trans hn,
      List.forall_mem_cons.mpr ⟨(le_max_right _ _).trans hn, hrows⟩⟩

/-- No row is longer than the number of columns. -/
theorem length_le_columnsOf {rows : List (List (List Block))} {cells : List (List Block)}
    (h : cells ∈ rows) : cells.length ≤ columnsOf rows :=
  (le_foldl_max rows 0).2 cells h

section

variable {columns : Nat} {cells : List (List Block)}

/-- The cells of a written row are those of the padded row. -/
theorem map_fst_filledCells (as : List Alignment) (h : cells.length ≤ columns) :
    (filledCells columns as cells).map (·.1) = paddedRow columns cells := by
  have hcells := map_range_getElem? filledCell [] cells columns
  rw [List.take_of_length_le h] at hcells
  rw [filledCells, List.map_map, paddedRow]
  exact hcells

/-- The alignments of a written row are those of the padded table. -/
theorem alignments_filledCells (alignments : Option (List Alignment)) (hcolumns : 0 < columns) :
    (if (filledCells columns (alignments.getD []) cells).all fun c => c.2.isNone then none
      else some ((filledCells columns (alignments.getD []) cells).map fun c => c.2.getD .left)) =
        (alignments.filter fun as => !as.isEmpty).map (paddedAlignments columns) := by
  have hmap (as : List Alignment) : (filledCells columns as cells).map (fun c => c.2.getD .left) =
      paddedAlignments columns as := by
    have halignments := map_range_getElem? id Alignment.left as columns
    rw [List.map_id] at halignments
    rw [filledCells, List.map_map, paddedAlignments]
    exact halignments
  have hnone (as : List Alignment) :
      ((filledCells columns as cells).all fun c => c.2.isNone) = true ↔ as = [] := by
    rw [filledCells, List.all_map, List.all_eq_true]
    constructor
    · intro hall
      -- the first column has the first alignment
      have hfirst := hall 0 (List.mem_range.mpr hcolumns)
      cases as with
      | nil => rfl
      | cons a as => simp at hfirst
    · rintro rfl column -
      simp
  cases alignments with
  | none =>
    rw [Option.getD_none, if_pos ((hnone []).mpr rfl)]
    rfl
  | some as =>
    rw [Option.getD_some, Option.filter_some]
    by_cases has : as = []
    · rw [if_pos ((hnone as).mpr has), has]
      rfl
    · rw [if_neg (mt (hnone as).mp has), if_pos (by simpa using has), hmap]
      rfl

end

/-- **The rows of a written table make the padded table.** -/
theorem tableOf_filledRows {header : Option (List (List Block))} {rows : List (List (List Block))}
    (alignments : Option (List Alignment)) (hcolumns : 0 < columnsOf (header.toList ++ rows)) :
    Html.tableOf (filledRows (columnsOf (header.toList ++ rows)) header rows
      (alignments.getD [])) = paddedTable header rows alignments := by
  have hcells : ∀ cells ∈ header.toList ++ rows,
      (filledCells (columnsOf (header.toList ++ rows)) (alignments.getD []) cells).map (·.1) =
        paddedRow (columnsOf (header.toList ++ rows)) cells :=
    fun cells hc => map_fst_filledCells _ (length_le_columnsOf hc)
  have halignments (cells : List (List Block)) :=
    @alignments_filledCells _ cells alignments hcolumns
  have hne : header.toList ++ rows ≠ [] := by
    intro h
    rw [h] at hcolumns
    exact absurd hcolumns (by decide)
  rw [paddedTable]
  generalize columnsOf (header.toList ++ rows) = columns at hcells halignments
  have hrows : (rows.map fun cells =>
      (⟨false, filledCells columns (alignments.getD []) cells⟩ : Row)).map
        (fun r => r.cells.map (·.1)) = rows.map (paddedRow columns) := by
    rw [List.map_map]
    exact List.map_congr_left fun cells hc => hcells cells (List.mem_append_right _ hc)
  cases header with
  | none =>
    obtain ⟨first, rest, rfl⟩ := List.exists_cons_of_ne_nil hne
    exact congrArg₂ (Block.table none) hrows (halignments _)
  | some first =>
    have hfirst := hcells first List.mem_cons_self
    exact congr (congrArg₂ Block.table (congrArg some hfirst) hrows) (halignments _)

/-! ### Reading tables -/

section

variable (o : Options) {header : Option (List (List Block))} {rows : List (List (List Block))}
  (alignments : Option (List Alignment))

/-- **A table of plain paragraphs is read as the padded table.** -/
theorem reads_tableHtml (hcolumns : 0 < columnsOf (header.toList ++ rows))
    (h : ∀ cells ∈ header.toList ++ rows, ∀ blocks ∈ cells, PlainCell blocks) :
    (tableItem o header rows alignments).IsPlain ∧
      Reads (tableItem o header rows alignments).tableHtml
        [paddedTable header rows alignments] := by
  have hrow : ∀ isHeader, ∀ cells ∈ header.toList ++ rows,
      (∀ cell ∈
          tableRow o (columnsOf (header.toList ++ rows)) (alignments.getD []) isHeader cells,
        ∀ p ∈ cell, p.IsPlain) ∧
      ReadsRows (readRow (tableRow o (columnsOf (header.toList ++ rows)) (alignments.getD [])
          isHeader cells))
        [⟨isHeader, filledCells (columnsOf (header.toList ++ rows)) (alignments.getD []) cells⟩] :=
    fun isHeader cells hc => ⟨tableRow_isPlain o _ isHeader (h cells hc),
      readsRows_tableRow o _ isHeader hcolumns (h cells hc)⟩
  have hitem : tableItem o header rows alignments = .table
      ((header.map
          (tableRow o (columnsOf (header.toList ++ rows)) (alignments.getD []) true)).toList
        ++ rows.map (tableRow o (columnsOf (header.toList ++ rows)) (alignments.getD []) false)) :=
    rfl
  -- the number of columns is that of the widest row, but only that it is positive matters now
  rw [← tableOf_filledRows alignments hcolumns]
  generalize columnsOf (header.toList ++ rows) = columns at hrow hitem
  have hheader := fun cells hc => hrow true cells (List.mem_append_left rows hc)
  have hrows := fun cells hc => hrow false cells (List.mem_append_right header.toList hc)
  rw [hitem]
  refine ⟨?_, ?_⟩
  · intro row hr
    rw [List.mem_append, List.mem_map, Option.toList_map, List.mem_map] at hr
    obtain ⟨cells, hc, rfl⟩ | ⟨cells, hc, rfl⟩ := hr
    · exact (hheader cells hc).1
    · exact (hrows cells hc).1
  · rw [LayoutItem.tableHtml, readTable, filledRows, List.flatMap_append, Option.toList_map,
      Option.toList_map, List.flatMap_map, List.flatMap_map]
    exact Html.reads_table (Html.readsRows_append
      (Html.readsRows_flatMap fun cells hc => (hheader cells hc).2)
      (Html.readsRows_flatMap fun cells hc => (hrows cells hc).2))

end

/-! ### Rectangular tables -/

theorem columnsOf_eq {columns : Nat} {rows : List (List (List Block))} (hne : rows ≠ [])
    (h : ∀ cells ∈ rows, cells.length = columns) : columnsOf rows = columns := by
  have hfold : ∀ rows : List (List (List Block)), (∀ cells ∈ rows, cells.length = columns) →
      rows.foldl (fun n row => max n row.length) columns = columns := by
    intro rows h
    induction rows with
    | nil => rfl
    | cons cells rows ih =>
      rw [List.forall_mem_cons] at h
      rw [List.foldl_cons, h.1, max_self, ih h.2]
  obtain ⟨cells, rows, rfl⟩ := List.exists_cons_of_ne_nil hne
  rw [List.forall_mem_cons] at h
  rw [columnsOf, List.foldl_cons, h.1, Nat.zero_max, hfold rows h.2]

/-- A table is padded already if its rows are of the same length, no cell is empty, and there is an
alignment for each column or none at all. -/
theorem paddedTable_eq_self {columns : Nat} {header : Option (List (List Block))}
    {rows : List (List (List Block))} {alignments : Option (List Alignment)}
    (hcount : columnsOf (header.toList ++ rows) = columns) (hcolumns : 0 < columns)
    (h : ∀ cells ∈ header.toList ++ rows, cells.length = columns ∧ ∀ blocks ∈ cells, blocks ≠ [])
    (ha : ∀ as ∈ alignments, as.length = columns) :
    paddedTable header rows alignments = .table header rows alignments := by
  have hrow : ∀ cells ∈ header.toList ++ rows, paddedRow columns cells = cells := by
    intro cells hc
    obtain ⟨hlength, hblocks⟩ := h cells hc
    rw [paddedRow, hlength, Nat.sub_self, List.replicate_zero, List.append_nil]
    refine (List.map_congr_left fun blocks hb => ?_).trans (List.map_id' cells)
    rw [filledCell, if_neg (by simpa using hblocks blocks hb)]
  -- alignments for no column count as none, but there is a column
  have halignments : (alignments.filter fun as => !as.isEmpty).map (paddedAlignments columns) =
      alignments := by
    cases alignments with
    | none => rfl
    | some as =>
      have hlength : as.length = columns := ha as rfl
      have hne : as ≠ [] := by
        rintro rfl
        exact absurd hcolumns (by simp [← hlength])
      rw [Option.filter_some, if_pos (by simpa using hne), Option.map_some, paddedAlignments,
        hlength, Nat.sub_self, List.take_of_length_le hlength.le, List.replicate_zero,
        List.append_nil]
  have hrows : rows.map (paddedRow columns) = rows :=
    (List.map_congr_left fun cells hc => hrow cells (List.mem_append_right _ hc)).trans
      (List.map_id' rows)
  rw [paddedTable, hcount, hrows, halignments]
  cases header with
  | none => rfl
  | some first => rw [Option.map_some, hrow first List.mem_cons_self]

/-- The rows of a plain table. -/
theorem exists_of_isPlainTable {header : Option (List (List Block))}
    {rows : List (List (List Block))} {alignments : Option (List Alignment)}
    (h : isPlainTable header rows alignments = true) : header.toList ++ rows ≠ [] ∧
      ∃ columns, 0 < columns ∧ (∀ as ∈ alignments, as.length = columns) ∧
        ∀ cells ∈ header.toList ++ rows,
          cells.length = columns ∧ ∀ blocks ∈ cells, arePlainParagraphs blocks = true := by
  rw [isPlainTable] at h
  generalize header.toList ++ rows = rows at h
  cases rows with
  | nil => cases h
  | cons first rest =>
    dsimp only at h
    rw [Bool.and_eq_true, isRectangular, Bool.and_eq_true, List.all_eq_true] at h
    obtain ⟨⟨hcolumns, hrows⟩, ha⟩ := h
    refine ⟨List.cons_ne_nil _ _, first.length, by simpa using hcolumns, ?_, fun cells hc => ?_⟩
    · rintro as rfl
      simpa using ha
    · simpa using hrows cells hc

theorem reads_plainTable (o : Options) {header : Option (List (List Block))}
    {rows : List (List (List Block))} {alignments : Option (List Alignment)}
    (h : isPlainTable header rows alignments = true)
    (hn : (Block.table header rows alignments).IsNormal) :
    (tableItem o header rows alignments).IsPlain ∧
      Reads (htmlOf o (.table header rows alignments)) [.table header rows alignments] := by
  obtain ⟨hne, columns, hcolumns, ha, hrows⟩ := exists_of_isPlainTable h
  have hnormal : ∀ cells ∈ header.toList ++ rows, Block.IsNormalItems cells := by
    cases header with
    | none => exact Block.isNormalRows_iff.mp hn
    | some first => exact List.forall_mem_cons.mpr ⟨hn.1, Block.isNormalRows_iff.mp hn.2⟩
  have hcells : ∀ cells ∈ header.toList ++ rows, ∀ blocks ∈ cells,
      blocks ≠ [] ∧ PlainCell blocks := by
    intro cells hc blocks hb
    have hplain := (hrows cells hc).2 blocks hb
    rw [arePlainParagraphs, Bool.and_eq_true, List.all_eq_true] at hplain
    have hblocks := Block.isNormalItems_iff.mp (hnormal cells hc) blocks hb
    exact ⟨hblocks.1, hplain.2, hblocks.2⟩
  have hcount := columnsOf_eq hne fun cells hc => (hrows cells hc).1
  have hreads := reads_tableHtml o alignments (by rwa [hcount])
    fun cells hc blocks hb => (hcells cells hc blocks hb).2
  rw [paddedTable_eq_self hcount hcolumns (fun cells hc => ⟨(hrows cells hc).1,
    fun blocks hb => (hcells cells hc blocks hb).1⟩) ha] at hreads
  exact hreads

end Interdoc.Docx

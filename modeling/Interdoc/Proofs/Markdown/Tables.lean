import Interdoc.Proofs.Document.Normal
import Interdoc.Proofs.Markdown.Spans

/-!
# Tables through Markdown trees

`settleTable` says what becomes of a table that becomes a node and then a block again: nothing if it
has no rows, else a table in which the first row is the header and every row has all columns, each
cell one paragraph (`normalizeList_tableNodes`).  Which tables come back as they are is said by
`isSettledTable`, which holds of every table that comes back.
-/

namespace Interdoc.Markdown

open Interdoc (Inline Block Alignment)

open Interdoc.Block (emptyParagraph)

/-! ### Columns -/

section Columns

variable {α β : Type} {n : Nat} {filler : α} {xs : List α}

theorem length_padTo (n : Nat) (filler : α) (xs : List α) : (padTo n filler xs).length = n := by
  rw [padTo, List.length_append, List.length_take, List.length_replicate]
  omega

theorem map_padTo (f : α → β) (n : Nat) (filler : α) (xs : List α) :
    (padTo n filler xs).map f = padTo n (f filler) (xs.map f) := by
  simp only [padTo, List.map_append, List.map_take, List.map_replicate, List.length_map]

theorem padTo_eq_self (h : xs.length = n) : padTo n filler xs = xs := by
  rw [padTo, h, Nat.sub_self, List.replicate_zero, List.append_nil, ← h, List.take_length]

theorem forall_mem_padTo {q : α → Prop} (hf : q filler) (h : ∀ x ∈ xs, q x) :
    ∀ x ∈ padTo n filler xs, q x := by
  intro x hx
  rw [padTo, List.mem_append] at hx
  rcases hx with hx | hx
  · exact h x (List.mem_of_mem_take hx)
  · exact (List.mem_replicate.mp hx).2 ▸ hf

end Columns

theorem foldl_max_le_iff {xs : List Nat} {m n : Nat} :
    xs.foldl max m ≤ n ↔ m ≤ n ∧ ∀ x ∈ xs, x ≤ n := by
  induction xs generalizing m with
  | nil => simp
  | cons x xs ih => rw [List.foldl_cons, ih, Nat.max_le, List.forall_mem_cons, and_assoc]

theorem one_le_columnCount (rows : List (List (List Block)))
    (alignments : Option (List Alignment)) : 1 ≤ columnCount rows alignments :=
  le_max_left _ _

/-- A rectangle has as many columns as each of its rows. -/
theorem columnCount_eq {rows : List (List (List Block))} {alignments : Option (List Alignment)}
    {n : Nat} (hn : 1 ≤ n) (hne : rows ≠ []) (hrows : ∀ row ∈ rows, row.length = n)
    (ha : alignments.elim 0 List.length ≤ n) : columnCount rows alignments = n := by
  obtain ⟨first, rest, rfl⟩ := List.exists_cons_of_ne_nil hne
  have hfirst : first.length = n := hrows first List.mem_cons_self
  -- nothing needs more columns, and the first row needs as many
  refine le_antisymm (max_le hn ?_) ?_
  · refine foldl_max_le_iff.mpr ⟨Nat.zero_le _, List.forall_mem_cons.mpr ⟨ha, ?_⟩⟩
    intro length hlength
    obtain ⟨row, hrow, rfl⟩ := List.mem_map.mp hlength
    exact (hrows row hrow).le
  · have hall := (foldl_max_le_iff.mp (le_max_right 1
      ((alignments.elim 0 List.length :: (first :: rest).map List.length).foldl max 0))).2
    rw [← hfirst]
    exact hall first.length (by simp)

/-- Whether alignments are given for each of the columns, or for none. -/
def isFull (columns : Nat) (alignments : Option (List Alignment)) : Bool :=
  alignments.all fun as => as.length == columns

theorem isFull_columnAlignments? (columns : List (Option Alignment)) :
    isFull columns.length (columnAlignments? columns) = true := by
  rw [columnAlignments?]
  split
  · rfl
  · rw [isFull, Option.all_some, List.length_map, beq_self_eq_true]

theorem columnAlignments?_padTo {n : Nat} (hn : 1 ≤ n) {alignments : Option (List Alignment)}
    (h : isFull n alignments = true) :
    columnAlignments? (padTo n none ((alignments.getD []).map some)) = alignments := by
  cases alignments with
  | none =>
    have hnone : (padTo n none ((none : Option (List Alignment)).getD [] |>.map some)).all
        Option.isNone = true := by
      rw [List.all_eq_true]
      exact forall_mem_padTo rfl (List.forall_mem_nil _)
    rw [columnAlignments?, if_pos hnone]
  | some as =>
    have hlength : as.length = n := by simpa [isFull] using h
    have hsome : ¬ (as.map some).all Option.isNone = true := by
      cases as with
      | nil => exact absurd (hn.trans hlength.ge) (by simp)
      | cons a as => simp
    rw [Option.getD_some, padTo_eq_self (by rwa [List.length_map]), columnAlignments?,
      if_neg hsome, List.map_map]
    exact congrArg some (List.map_id as)

/-! ### Tables -/

/-- What becomes of a cell: all of its blocks are one paragraph. -/
def settleCell (blocks : List Block) : List Block :=
  [.paragraph (throughSpans (cellInlines blocks))]

/-- What becomes of a row: it has all columns. -/
def settleRow (columns : Nat) (row : List (List Block)) : List (List Block) :=
  padTo columns [emptyParagraph] (row.map settleCell)

/-- What becomes of a table: its first row is the header. -/
def settleTable (rows : List (List (List Block))) (alignments : Option (List Alignment)) :
    List Block :=
  if rows.isEmpty then []
  else
    let columns := columnCount rows alignments
    let settled := rows.map (settleRow columns)
    [.table settled.head? settled.tail
      (columnAlignments? (padTo columns none ((alignments.getD []).map some)))]

theorem normalizeItems_map_singleton {α : Type} (f : α → Block) (xs : List α) :
    Block.normalizeItems (xs.map fun x => [f x]) = xs.map fun x => [(f x).normalize] := by
  induction xs with
  | nil => rfl
  | cons x xs ih => rw [List.map_cons, Block.normalizeItems, Block.normalizeList, ih, List.map_cons]

theorem normalizeRows_eq_map (rows : List (List (List Block))) :
    Block.normalizeRows rows = rows.map Block.normalizeItems := by
  induction rows with
  | nil => rfl
  | cons row rows ih => rw [Block.normalizeRows, ih, List.map_cons]

/-- The normal form of a row that comes back. -/
theorem normalizeItems_row (columns : Nat) (row : List (List Block)) :
    Block.normalizeItems ((padTo columns [] (row.map (Span.ofInlines ∘ cellInlines))).map
      fun spans => [.paragraph (Span.toInlines spans)]) = settleRow columns row := by
  have hcell : (fun spans => [(Block.paragraph (Span.toInlines spans)).normalize]) ∘
      Span.ofInlines ∘ cellInlines = settleCell := by
    funext blocks
    rw [Function.comp_apply, Function.comp_apply, Block.normalize, normalizeList_toInlines,
      settleCell]
  rw [normalizeItems_map_singleton, map_padTo, List.map_map, hcell, settleRow]
  rfl

/-- **What comes back of a table.** -/
theorem normalizeList_tableNodes (rows : List (List (List Block)))
    (alignments : Option (List Alignment)) :
    Block.normalizeList (Node.listToBlocks (tableNodes rows alignments)) =
      settleTable rows alignments := by
  cases rows with
  | nil => rfl
  | cons first rest =>
    have hrows (columns : Nat) :
        Block.normalizeRows (rest.map fun row =>
          (padTo columns [] (row.map (Span.ofInlines ∘ cellInlines))).map
            fun spans => [.paragraph (Span.toInlines spans)]) = rest.map (settleRow columns) := by
      rw [normalizeRows_eq_map, List.map_map]
      exact List.map_congr_left fun row _ => normalizeItems_row columns row
    simp only [tableNodes, settleTable, List.isEmpty_cons, Bool.false_eq_true, if_false,
      Node.listToBlocks, Node.toBlocks, tableBlock, List.append_nil, List.map_cons, List.map_map,
      List.head?_cons, List.tail_cons, Block.normalizeList, Block.normalize, normalizeItems_row]
    rw [← hrows]
    rfl

/-- Whether a cell has a single paragraph, in which no image has an empty description. -/
def isSettledCell : List Block → Bool
  | [.paragraph inlines] => haveNoEmptyAlt inlines
  | _ => false

/-- Whether a row has all columns. -/
def isSettledRow (columns : Nat) (row : List (List Block)) : Bool :=
  row.length == columns && row.all isSettledCell

/-- Whether a table has a header, and is a rectangle with one column at least. -/
def isSettledTable (header : Option (List (List Block))) (rows : List (List (List Block)))
    (alignments : Option (List Alignment)) : Bool :=
  header.any fun cells =>
    !cells.isEmpty && (cells :: rows).all (isSettledRow cells.length) &&
      isFull cells.length alignments

theorem isSettledRow_settleRow (columns : Nat) (row : List (List Block)) :
    isSettledRow columns (settleRow columns row) = true := by
  have hcells : ∀ cell ∈ settleRow columns row, isSettledCell cell = true := by
    refine forall_mem_padTo rfl fun cell hcell => ?_
    obtain ⟨blocks, -, rfl⟩ := List.mem_map.mp hcell
    exact haveNoEmptyAlt_throughSpans _
  rw [isSettledRow, List.all_eq_true.mpr hcells, settleRow, length_padTo, beq_self_eq_true,
    Bool.and_true]

theorem settleCell_eq_self {blocks : List Block} (hn : Block.IsNormalList blocks)
    (h : isSettledCell blocks = true) : settleCell blocks = blocks := by
  match blocks, h with
  | [.paragraph inlines], h =>
    rw [Block.IsNormalList, Block.IsNormal] at hn
    rw [settleCell, cellInlines, cellInlinesOfBlock, throughSpans_eq_self hn.1 h]

theorem settleRow_eq_self {columns : Nat} {row : List (List Block)}
    (hn : Block.IsNormalItems row) (h : isSettledRow columns row = true) :
    settleRow columns row = row := by
  rw [isSettledRow, Bool.and_eq_true, beq_iff_eq, List.all_eq_true] at h
  rw [Block.isNormalItems_iff] at hn
  have hcells : row.map settleCell = row.map id :=
    List.map_congr_left fun cell hcell => settleCell_eq_self (hn cell hcell).2 (h.2 cell hcell)
  rw [settleRow, hcells, List.map_id, padTo_eq_self h.1]

/-- A settled table comes back. -/
theorem settleTable_eq_self {header : Option (List (List Block))} {rows : List (List (List Block))}
    {alignments : Option (List Alignment)} (hn : Block.IsNormal (.table header rows alignments))
    (h : isSettledTable header rows alignments = true) :
    settleTable (header.toList ++ rows) alignments = [.table header rows alignments] := by
  cases header with
  | none => cases h
  | some cells =>
    rw [isSettledTable, Option.any_some, Bool.and_eq_true, Bool.and_eq_true, List.all_eq_true] at h
    obtain ⟨⟨hcells, hrows⟩, hfull⟩ := h
    rw [Block.IsNormal, ← Block.IsNormalRows, Block.isNormalRows_iff] at hn
    have hone : 1 ≤ cells.length := by
      rw [Nat.one_le_iff_ne_zero]
      simpa using hcells
    have hlength (row) (hrow : row ∈ cells :: rows) : row.length = cells.length := by
      have hrow := hrows row hrow
      rw [isSettledRow, Bool.and_eq_true, beq_iff_eq] at hrow
      exact hrow.1
    have halignments : alignments.elim 0 List.length ≤ cells.length := by
      cases alignments with
      | none => exact Nat.zero_le _
      | some as => exact (beq_iff_eq.mp hfull).le
    -- the rectangle is as wide as its header, so that no row is cut or filled
    have hsettled : (cells :: rows).map (settleRow cells.length) = (cells :: rows).map id :=
      List.map_congr_left fun row hrow => settleRow_eq_self (hn row hrow) (hrows row hrow)
    rw [Option.toList_some, List.singleton_append, settleTable, if_neg (by simp)]
    simp only [columnCount_eq hone (List.cons_ne_nil _ _) hlength halignments, hsettled,
      List.map_id, List.head?_cons, List.tail_cons, columnAlignments?_padTo hone hfull]

end Interdoc.Markdown

import Interdoc.Proofs.Latex.Table
import Interdoc.Proofs.Latex.Verbatim

/-!
# Bodies of tabulars

The lines of a tabular body are read as one text, in which the scanner looks for the ends of rows
and for rules.  When every line is a rule or a row (`BodyLine`), each line is one piece of the
table: the space before the next line ends a rule without an argument, and keeps a row that begins
with a bracket from being taken for the option of the `\\` before it (`isPieceLine_print`).

So the rows of the table are the lines that are rows, with their cells (`cellTexts_bodyLines`), and
the first of them is the header if the lines directly before and after it are rules
(`hasHeader_pieces_iff`).
-/

namespace Interdoc.Latex

/-! ### Lines -/

/-- A line of a tabular body. -/
inductive BodyLine where
  /-- A rule command, with its argument if it has one. -/
  | rule (name : List Char) (argument : Option (List Char))
  /-- The cells of a row, and the number of spaces between the last of them and the end of the
  row. -/
  | row (cells : List (List Inline)) (spaces : Nat)

/-- Printed cells with ampersands between them, and spaces behind the last of them. -/
def cellsText (cells : List (List Inline)) (spaces : Nat) : List Char :=
  Text.join " & ".toList (cells.map printInlines) ++ List.replicate spaces ' '

namespace BodyLine

/-- The text of a line. -/
def print : BodyLine → Line
  | .rule name argument => ruleLine name argument
  | .row cells spaces => cellsText cells spaces ++ ['\\', '\\']

/-- The line is a rule of a table, or a row of cells without blanks around them. -/
def IsPrinted : BodyLine → Prop
  | .rule name argument => name ∈ ruleNames ∧ ∀ a ∈ argument, Inert a
  | .row cells _ => cells ≠ [] ∧ ∀ xs ∈ cells, Text.trim (printInlines xs) = printInlines xs

/-- The line is a rule. -/
def IsRule : BodyLine → Prop
  | .rule _ _ => True
  | .row _ _ => False

/-- The cells of a line that is a row. -/
def cells? : BodyLine → Option (List (List Inline))
  | .rule _ _ => none
  | .row cells _ => some cells

/-- The piece of the table that a line is. -/
def piece : BodyLine → TablePiece
  | .rule _ _ => .rule
  | .row cells spaces => .row (' ' :: Text.trimLeft (cellsText cells spaces))

end BodyLine

/-! ### Rows -/

variable {cells : List (List Inline)} {line : BodyLine} {lines : List BodyLine}

theorem isBlank_replicate_space (n : Nat) : Text.isBlank (List.replicate n ' ') = true := by
  rw [Text.isBlank_iff]
  intro c hc
  rw [List.eq_of_mem_replicate hc]
  decide

/-- The cells of a row are printed as in a table that holds each of them as a paragraph. -/
theorem cellsText_eq (cells : List (List Inline)) (spaces : Nat) :
    cellsText cells spaces =
      rowText (cells.map fun xs => [.paragraph xs]) ++ List.replicate spaces ' ' := by
  have hcell (xs : List Inline) : printCell [.paragraph xs] = printInlines xs :=
    joinNonempty_singleton _ _
  rw [cellsText, rowText, List.map_map]
  simp only [Function.comp_def, hcell]

theorem isRowText_cellsText (cells : List (List Inline)) (spaces : Nat) :
    RowText (cellsText cells spaces) := by
  have hspaces : Inert (List.replicate spaces ' ') := by
    refine Inert.of_forall fun c hc => ?_
    rw [List.eq_of_mem_replicate hc]
    decide
  rw [cellsText_eq, ← List.append_nil (List.replicate spaces ' ')]
  exact (isRowText _).append (.inert hspaces .nil)

/-- **The cells of a row** are those that it was printed from. -/
theorem cellTexts_cellsText (hne : cells ≠ [])
    (hsolid : ∀ xs ∈ cells, Text.trim (printInlines xs) = printInlines xs) (spaces : Nat) :
    cellTexts (' ' :: Text.trimLeft (cellsText cells spaces)) = cells.map printInlines := by
  have hblocks : cells.map (fun xs => [Block.paragraph xs]) ≠ [] := by simpa using hne
  rw [cellTexts_trimLeft, cellsText_eq,
    cellTexts_rowText hblocks (isBlank_replicate_space spaces), List.map_map]
  refine List.map_congr_left fun xs hxs => ?_
  rw [Function.comp_apply, printCell, List.map_singleton, joinNonempty_singleton]
  exact hsolid xs hxs

/-! ### Pieces -/

theorem isPieceLine_print (h : line.IsPrinted) : IsPieceLine line.print line.piece := by
  cases line with
  | rule name argument => exact isPieceLine_ruleLine h.1 h.2
  | row cells spaces => exact (isRowText_cellsText cells spaces).isPieceLine

theorem plain_print (h : line.IsPrinted) : Plain line.print := by
  cases line with
  | rule name argument => exact (plain_ruleLine h.1 h.2).1
  | row cells spaces => exact (isRowText_cellsText cells spaces).plain.1

/-- **Each line is a piece** of the table. -/
theorem tablePieces_bodyLines (h : ∀ line ∈ lines, line.IsPrinted) :
    tablePieces [] ((lines.map BodyLine.print).flatMap tabularLine) =
      lines.map BodyLine.piece := by
  apply tablePieces_lines
  rw [List.forall₂_map_left_iff, List.forall₂_map_right_iff, List.forall₂_same]
  exact fun line hline => isPieceLine_print (h line hline)

/-- **The rows of the table** are the lines that are rows, with their cells. -/
theorem cellTexts_bodyLines (h : ∀ line ∈ lines, line.IsPrinted) :
    (rowTexts (lines.map BodyLine.piece)).map cellTexts =
      (lines.filterMap BodyLine.cells?).map (·.map printInlines) := by
  induction lines with
  | nil => rfl
  | cons line lines ih =>
    rw [List.forall_mem_cons] at h
    cases line with
    | rule name argument => exact ih h.2
    | row cells spaces =>
      have hcells := cellTexts_cellsText h.1.1 h.1.2 spaces
      change cellTexts (' ' :: Text.trimLeft (cellsText cells spaces)) ::
        (rowTexts (lines.map BodyLine.piece)).map cellTexts = _
      rw [hcells, ih h.2]
      rfl

/-! ### The header -/

/-- The first row stands directly between two rules. -/
def FirstRowBetweenRules (lines : List BodyLine) : Prop :=
  ∃ before above row below after, lines = before ++ above :: row :: below :: after ∧
    (∀ line ∈ before, line.IsRule) ∧ above.IsRule ∧ ¬ row.IsRule ∧ below.IsRule

theorem firstRowBetweenRules_cons : FirstRowBetweenRules (line :: lines) ↔ line.IsRule ∧
    ((∃ row below after, lines = row :: below :: after ∧ ¬ row.IsRule ∧ below.IsRule) ∨
      FirstRowBetweenRules lines) := by
  constructor
  · rintro ⟨before, above, row, below, after, hlines, hbefore, habove, hrow, hbelow⟩
    cases before with
    | nil =>
      obtain ⟨rfl, rfl⟩ := List.cons.inj hlines
      exact ⟨habove, .inl ⟨row, below, after, rfl, hrow, hbelow⟩⟩
    | cons first before =>
      obtain ⟨rfl, rfl⟩ := List.cons.inj hlines
      rw [List.forall_mem_cons] at hbefore
      exact ⟨hbefore.1, .inr ⟨before, above, row, below, after, rfl, hbefore.2, habove, hrow,
        hbelow⟩⟩
  · rintro ⟨hline, ⟨row, below, after, rfl, hrow, hbelow⟩ |
      ⟨before, above, row, below, after, rfl, hbefore, habove, hrow, hbelow⟩⟩
    · exact ⟨[], line, row, below, after, rfl, List.forall_mem_nil _, hline, hrow, hbelow⟩
    · exact ⟨line :: before, above, row, below, after, rfl,
        List.forall_mem_cons.mpr ⟨hline, hbefore⟩, habove, hrow, hbelow⟩

theorem hasHeader_rule_cons {pieces : List TablePiece} : hasHeader (.rule :: pieces) = true ↔
    (∃ text after, pieces = .row text :: .rule :: after) ∨ hasHeader pieces = true := by
  match pieces with
  | [] => simp [hasHeader]
  | .rule :: pieces => simp [hasHeader]
  | [.row text] => simp [hasHeader]
  | .row text :: .rule :: after => simp [hasHeader]
  | .row text :: .row other :: after => simp [hasHeader]

/-- **The header is the first row** if it stands directly between two rules. -/
theorem hasHeader_pieces_iff :
    hasHeader (lines.map BodyLine.piece) = true ↔ FirstRowBetweenRules lines := by
  induction lines with
  | nil =>
    refine iff_of_false (by decide) ?_
    rintro ⟨before, above, row, below, after, hlines, -⟩
    exact absurd hlines (by simp)
  | cons line lines ih =>
    rw [firstRowBetweenRules_cons]
    cases line with
    | row cells spaces => exact iff_of_false (by simp [BodyLine.piece, hasHeader]) (fun h => h.1)
    | rule name argument =>
      rw [List.map_cons, BodyLine.piece, hasHeader_rule_cons, ih]
      refine (or_congr_left ?_).trans (and_iff_right trivial).symm
      match lines with
      | [] => simp
      | [_] => simp
      | .rule _ _ :: _ :: _ => simp [BodyLine.piece, BodyLine.IsRule]
      | .row _ _ :: .rule _ _ :: _ => simp [BodyLine.piece, BodyLine.IsRule]
      | .row _ _ :: .row _ _ :: _ => simp [BodyLine.piece, BodyLine.IsRule]

/-- A body with a header has a row. -/
theorem rowTexts_ne_nil {pieces : List TablePiece} (h : hasHeader pieces = true) :
    rowTexts pieces ≠ [] := by
  fun_induction hasHeader pieces with
  | case1 text rest => exact List.cons_ne_nil text (rowTexts rest)
  | case2 rest _ ih => exact ih h
  | case3 => exact absurd h (by decide)

/-! ### Tables -/

/-- A line that opens a tabular with a column specification and has nothing behind it. -/
structure OpensTabular (raw : Line) (opening spec : List Char) : Prop where
  opens : opening? (significant raw) = some ("tabular".toList, opening)
  /-- The tabular does not end on the line. -/
  stillOpen : scanClose "tabular".toList 0 0 opening = .stillOpen 0
  /-- Behind an optional argument there is nothing but the specification, which may be missing. -/
  specification : (braced? (skipBracketed (Text.trimLeft opening))).getD
    ([], skipBracketed (Text.trimLeft opening)) = (spec, [])

/-- The body of a tabular begins on the next line. -/
theorem OpensTabular.tabular_eq {raw : Line} {opening spec : List Char}
    (h : OpensTabular raw opening spec) (body : List Line) :
    Environment.tabular ⟨"tabular".toList, opening, body, []⟩ =
      .ofBody spec (body.flatMap tabularLine) := by
  have hspec := h.specification
  rw [Environment.tabular]
  cases hb : braced? (skipBracketed (Text.trimLeft opening)) with
  | none =>
    rw [hb, Option.getD_none, Prod.mk.injEq] at hspec
    obtain ⟨rfl, hrest⟩ := hspec
    dsimp only
    rw [hrest, List.nil_append]
  | some found =>
    rw [hb, Option.getD_some] at hspec
    subst hspec
    dsimp only
    rw [List.nil_append]

/-- The rows of a table are its header and the others. -/
theorem Tabular.header_append_rows (spec body : List Char) :
    (Tabular.ofBody spec body).header.toList ++ (Tabular.ofBody spec body).rows =
      (rowTexts (tablePieces [] body)).map cellTexts := by
  rw [Tabular.ofBody]
  dsimp only
  generalize (rowTexts (tablePieces [] body)).map cellTexts = rows
  split_ifs
  · cases rows <;> rfl
  · rfl

theorem Tabular.isSome_header (spec body : List Char) :
    (Tabular.ofBody spec body).header.isSome = hasHeader (tablePieces [] body) := by
  rw [Tabular.ofBody]
  dsimp only
  cases hh : hasHeader (tablePieces [] body) with
  | false => rfl
  | true =>
    obtain ⟨text, texts, ht⟩ := List.exists_cons_of_ne_nil (rowTexts_ne_nil hh)
    rw [ht]
    rfl

/-- **Each row of a tabular body is a row of the table**, and each of its cells is one paragraph.
The first row is the header exactly if the line before it and the line after it are rules. -/
theorem parseBlocks_tabular {raw : Line} {opening spec : List Char}
    (ho : OpensTabular raw opening spec) (hl : ∀ line ∈ lines, line.IsPrinted) (rest : List Line) :
    ∃ header rows,
      parseBlocks (raw :: (lines.map BodyLine.print ++ closingMarker "tabular".toList :: rest)) =
        .table header rows (if (columns spec).isEmpty then none else some (columns spec)) ::
          parseBlocks rest ∧
      header.toList ++ rows = (lines.filterMap BodyLine.cells?).map
        (·.map fun xs => [.paragraph (tokenize (printInlines xs))]) ∧
      (header.isSome = true ↔ FirstRowBetweenRules lines) := by
  -- no printed line opens or closes an environment, so all of them are the body
  have hplain : ∀ line ∈ lines.map BodyLine.print, Plain line := by
    rw [List.forall_mem_map]
    exact fun line hline => plain_print (hl line hline)
  have hcollect := collect_of_append ho.stillOpen
    (collectBody_append_of_plain hplain "tabular".toList 0) rest
  have hpieces := tablePieces_bodyLines hl
  let t := Tabular.ofBody spec ((lines.map BodyLine.print).flatMap tabularLine)
  have hblocks : environmentBlocks ⟨"tabular".toList, opening, lines.map BodyLine.print, []⟩ =
      [t.block] := by
    rw [environmentBlocks, ho.tabular_eq]
    rfl
  refine ⟨t.header.map (·.map cellBlocks), t.rows.map (·.map cellBlocks), ?_, ?_, ?_⟩
  · rw [parseBlocks, segments_of_opening? ho.opens, hcollect, assemble, hblocks, parseBlocks]
    rfl
  · have hrows : t.header.toList ++ t.rows =
        (lines.filterMap BodyLine.cells?).map (·.map printInlines) := by
      rw [Tabular.header_append_rows, hpieces, cellTexts_bodyLines hl]
    have hmap : (t.header.map (·.map cellBlocks)).toList ++ t.rows.map (·.map cellBlocks) =
        (t.header.toList ++ t.rows).map (·.map cellBlocks) := by
      rw [List.map_append]
      cases t.header <;> rfl
    rw [hmap, hrows, List.map_map]
    refine List.map_congr_left fun cells _ => ?_
    rw [Function.comp_apply, List.map_map]
    rfl
  · rw [Option.isSome_map, Tabular.isSome_header, hpieces, hasHeader_pieces_iff]

/-- A header with a bracket at its start and an ampersand in it, a row with one empty cell, one rule
directly behind another, and a backslash directly before the end of a row. -/
theorem parseBlocks_tabular_brackets :
    let raw := "\\begin\x7btabular\x7d[t]\x7bl|r\x7d % two columns".toList
    let lines : List BodyLine := [.rule "hline".toList none,
      .row [[.text "[x] & y"], []] 1, .rule "cline".toList (some "1-2".toList), .row [[]] 0,
      .rule "midrule".toList none, .rule "midrule".toList none,
      .row [[.strong [.text "b"]], [.text "a\\"]] 0]
    (OpensTabular raw "[t]\x7bl|r\x7d".toList "l|r".toList ∧ ∀ line ∈ lines, line.IsPrinted) ∧
      ∃ header rows,
        parseBlocks (raw :: (lines.map BodyLine.print ++ closingMarker "tabular".toList :: [])) =
          .table header rows (if (columns "l|r".toList).isEmpty then none
            else some (columns "l|r".toList)) :: parseBlocks [] ∧
        header.toList ++ rows = (lines.filterMap BodyLine.cells?).map
          (·.map fun xs => [.paragraph (tokenize (printInlines xs))]) ∧
        (header.isSome = true ↔ FirstRowBetweenRules lines) := by
  intro raw lines
  have ho : OpensTabular raw "[t]\x7bl|r\x7d".toList "l|r".toList :=
    ⟨by decide, by rfl, by decide⟩
  have hl : ∀ line ∈ lines, line.IsPrinted := by
    have hargument : Inert "1-2".toList := Inert.of_forall (by decide)
    have hrule : ∀ name ∈ ruleNames, (BodyLine.rule name none).IsPrinted :=
      fun name hname => ⟨hname, by simp⟩
    simp only [lines, List.forall_mem_cons]
    refine ⟨hrule _ (by decide), ⟨by simp, by decide⟩, ⟨by decide, ?_⟩, ⟨by simp, by decide⟩,
      hrule _ (by decide), hrule _ (by decide), ⟨by simp, by decide⟩, List.forall_mem_nil _⟩
    rintro a ⟨⟩
    exact hargument
  exact ⟨⟨ho, hl⟩, parseBlocks_tabular ho hl []⟩

end Interdoc.Latex

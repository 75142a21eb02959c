import Interdoc.Proofs.Document.Encoded
import Interdoc.Proofs.Document.Normal
import Interdoc.Registry.Standard
import Mathlib.Tactic.SplitIfs

/-!
# What readers give

A canonical document is in normal form, and nothing in it is a violation when it is written as JSON
(`Document.IsCanonical`).  The normal form of a document whose levels are in range is canonical
(`Document.isCanonical_normalize`), so a reader that normalizes what it has read only has to see to
the levels.

Every document that a reader gives is canonical, whatever it has read.  All readers normalize in the end, except for the one of bare text, whose paragraphs are normal as they
are.  What is left are the levels of headings:

* a line of LaTeX has its level from the table of sectioning commands (`heading?_level`);
* the level of a node of a Markdown tree is brought into range;
* the level of an HTML element is in its name (`headingLevel?_range`).
-/

namespace Interdoc

/-! ### Canonical documents -/

namespace Block

theorem levelsInRangeList_append {bs cs : List Block} :
    LevelsInRangeList (bs ++ cs) ↔ LevelsInRangeList bs ∧ LevelsInRangeList cs := by
  induction bs with
  | nil => simp [LevelsInRangeList]
  | cons b bs ih => rw [List.cons_append, LevelsInRangeList, LevelsInRangeList, ih, and_assoc]

mutual

theorem levelsInRange_normalize : ∀ {b : Block}, LevelsInRange b → LevelsInRange (normalize b)
  | .paragraph _, _ | .code _ _, _ | .rule, _ => by rw [normalize, LevelsInRange]; trivial
  | .heading level xs, h => by rw [normalize]; exact h
  | .list ordered items, h => by rw [normalize]; exact levelsInRangeItems_normalizeItems h
  | .quote blocks, h => by rw [normalize]; exact levelsInRangeList_normalizeList h
  | .table none rows alignments, h => by rw [normalize]; exact levelsInRangeRows_normalizeRows h
  | .table (some header) rows alignments, h => by
    rw [normalize]
    exact ⟨levelsInRangeItems_normalizeItems h.1, levelsInRangeRows_normalizeRows h.2⟩

theorem levelsInRangeList_normalizeList : ∀ {blocks : List Block}, LevelsInRangeList blocks →
    LevelsInRangeList (normalizeList blocks)
  | [], _ => trivial
  | _ :: _, h => ⟨levelsInRange_normalize h.1, levelsInRangeList_normalizeList h.2⟩

theorem levelsInRangeItems_normalizeItems : ∀ {items : List (List Block)},
    LevelsInRangeItems items → LevelsInRangeItems (normalizeItems items)
  | [], _ => trivial
  | [] :: _, h => ⟨⟨trivial, trivial⟩, levelsInRangeItems_normalizeItems h.2⟩
  | (_ :: _) :: _, h => ⟨⟨levelsInRange_normalize h.1.1, levelsInRangeList_normalizeList h.1.2⟩,
      levelsInRangeItems_normalizeItems h.2⟩

theorem levelsInRangeRows_normalizeRows : ∀ {rows : List (List (List Block))},
    LevelsInRangeRows rows → LevelsInRangeRows (normalizeRows rows)
  | [], _ => trivial
  | _ :: _, h => ⟨levelsInRangeItems_normalizeItems h.1, levelsInRangeRows_normalizeRows h.2⟩

end

end Block

namespace Document

/-- A document in the one form in which documents are compared, and which every JSON reader takes.
-/
structure IsCanonical (d : Document) : Prop where
  normal : d.normalize = d
  levels : d.LevelsInRange
  valid : d.toJson.documentViolations = []

theorem isCanonical_of_isNormal {d : Document} (hn : d.IsNormal) (hl : d.LevelsInRange) :
    d.IsCanonical :=
  ⟨normalize_eq_self hn, hl, documentViolations_toJson hl⟩

/-- **Normalizing makes a document canonical** whose levels are in range. -/
theorem isCanonical_normalize {d : Document} (h : d.LevelsInRange) : d.normalize.IsCanonical :=
  isCanonical_of_isNormal d.normalize_isNormal (Block.levelsInRangeList_normalizeList h)

end Document

open Block (LevelsInRange LevelsInRangeList LevelsInRangeItems LevelsInRangeRows
  levelsInRangeList_append)

/-! ### LaTeX -/

namespace Latex

theorem heading?_level {line title : List Char} {level : Nat}
    (h : heading? line = some (level, title)) : 1 ≤ level ∧ level ≤ 6 := by
  obtain ⟨⟨command, l⟩, hmem, hl⟩ := List.exists_of_findSome?_eq_some h
  have hrange : ∀ p ∈ sectioning, 1 ≤ p.2 ∧ p.2 ≤ 6 := by decide
  dsimp only at hl
  split at hl
  · obtain ⟨_, _, he⟩ := Option.map_eq_some_iff.mp hl
    cases he
    exact hrange _ hmem
  · cases hl

/-- A segment is no heading, or has a level in range. -/
def Segment.LevelInRange : Segment → Prop
  | .heading level _ => 1 ≤ level ∧ level ≤ 6
  | .text _ | .gap | .rule | .environment _ => True

theorem levelInRange_segments (lines : List Line) :
    ∀ seg ∈ segments lines, seg.LevelInRange := by
  fun_induction segments lines with
  | case1 => rintro seg ⟨⟩
  | case2 _ _ _ ih => exact ih
  | case3 _ _ _ _ _ ih => exact List.forall_mem_cons.mpr ⟨trivial, ih⟩
  | case4 _ _ _ _ _ level title h ih => exact List.forall_mem_cons.mpr ⟨heading?_level h, ih⟩
  | case5 _ _ _ _ _ _ _ ih => exact List.forall_mem_cons.mpr ⟨trivial, ih⟩
  | case6 _ _ _ _ _ _ _ _ _ _ ih => exact List.forall_mem_cons.mpr ⟨trivial, ih⟩
  | case7 _ _ _ _ _ _ _ _ ih => exact List.forall_mem_cons.mpr ⟨trivial, ih⟩

theorem levelsInRange_flush (paragraph : List Inline) : LevelsInRangeList (flush paragraph) := by
  rw [flush]
  split
  · trivial
  · exact ⟨trivial, trivial⟩

theorem levelsInRangeItems_cellRow (cells : List (List Char)) :
    LevelsInRangeItems (cells.map cellBlocks) := by
  induction cells with
  | nil => trivial
  | cons cell cells ih => exact ⟨⟨trivial, trivial⟩, ih⟩

theorem levelsInRange_tabular (t : Tabular) : LevelsInRange t.block := by
  have hrows : LevelsInRangeRows (t.rows.map (·.map cellBlocks)) := by
    induction t.rows with
    | nil => trivial
    | cons row rows ih => exact ⟨levelsInRangeItems_cellRow row, ih⟩
  rw [Tabular.block]
  cases t.header with
  | none => exact hrows
  | some cells => exact ⟨levelsInRangeItems_cellRow cells, hrows⟩

mutual

/-- **Lines are read as blocks whose levels are in range.** -/
theorem levelsInRange_parseBlocks (lines : List Line) : LevelsInRangeList (parseBlocks lines) := by
  rw [parseBlocks]
  exact levelsInRange_assemble [] (segments lines) (levelInRange_segments lines)
termination_by (weight lines, 2)
decreasing_by
  have := segmentsWeight_segments lines
  simp only [Prod.lex_def]
  omega

theorem levelsInRange_assemble (paragraph : List Inline) : ∀ segs : List Segment,
    (∀ seg ∈ segs, seg.LevelInRange) → LevelsInRangeList (assemble paragraph segs)
  | [], _ => by rw [assemble]; exact levelsInRange_flush paragraph
  | .text line :: segs, h => by
    rw [assemble]
    exact levelsInRange_assemble _ segs (List.forall_mem_cons.mp h).2
  | .gap :: segs, h => by
    rw [assemble, levelsInRangeList_append]
    exact ⟨levelsInRange_flush paragraph,
      levelsInRange_assemble [] segs (List.forall_mem_cons.mp h).2⟩
  | .heading level title :: segs, h => by
    rw [List.forall_mem_cons] at h
    rw [assemble, levelsInRangeList_append]
    exact ⟨levelsInRange_flush paragraph, h.1, levelsInRange_assemble [] segs h.2⟩
  | .rule :: segs, h => by
    rw [assemble, levelsInRangeList_append]
    exact ⟨levelsInRange_flush paragraph, trivial,
      levelsInRange_assemble [] segs (List.forall_mem_cons.mp h).2⟩
  | .environment e :: segs, h => by
    rw [assemble, levelsInRangeList_append, levelsInRangeList_append]
    exact ⟨levelsInRange_flush paragraph, levelsInRange_environmentBlocks e,
      levelsInRange_assemble [] segs (List.forall_mem_cons.mp h).2⟩
termination_by segs => (segmentsWeight segs, 1)
decreasing_by
  all_goals
    simp only [segmentsWeight_cons, Segment.weight, Prod.lex_def]
    omega

theorem levelsInRange_environmentBlocks (e : Environment) :
    LevelsInRangeList (environmentBlocks e) := by
  have hb := levelsInRange_parseBlocks e.lines
  have hi := levelsInRange_itemBlocks (itemLines e.lines)
  have ht := levelsInRange_parseBlocks [e.trailing]
  have hblocks : LevelsInRangeList
      (if isQuote e.name then [.quote (parseBlocks e.lines)]
      else if isItemize e.name then [.list false (itemBlocks (itemLines e.lines))]
      else if isEnumerate e.name then [.list true (itemBlocks (itemLines e.lines))]
      else if e.name = "tabular".toList then [e.tabular.block]
      else if isVerbatim e.name then [e.code]
      else parseBlocks e.lines) := by
    split_ifs
    · exact ⟨hb, trivial⟩
    · exact ⟨hi, trivial⟩
    · exact ⟨hi, trivial⟩
    · exact ⟨levelsInRange_tabular e.tabular, trivial⟩
    · exact ⟨trivial, trivial⟩
    · exact hb
  rw [environmentBlocks]
  split
  · exact hblocks
  · exact levelsInRangeList_append.mpr ⟨hblocks, ht⟩
termination_by (e.weight, 0)
decreasing_by
  all_goals
    have h₁ := weight_lines e
    have h₂ := weight_trailing e
    have h₃ := itemsWeight_itemLines e.lines
    simp only [Prod.lex_def]
    omega

theorem levelsInRange_itemBlocks : ∀ items : List (List Line),
    LevelsInRangeItems (itemBlocks items)
  | [] => by rw [itemBlocks]; trivial
  | lines :: items => by
    rw [itemBlocks]
    exact ⟨levelsInRange_parseBlocks lines, levelsInRange_itemBlocks items⟩
termination_by items => (itemsWeight items, 3)
decreasing_by
  all_goals
    simp only [itemsWeight_cons, Prod.lex_def]
    omega

end

theorem levelsInRange_read (source : List Char) :
    Document.LevelsInRange ⟨parseBlocks (Text.lines source)⟩ :=
  levelsInRange_parseBlocks (Text.lines source)

end Latex

/-! ### Markdown -/

namespace Markdown

theorem levelsInRange_blocksOfHtml (literal : List Char) :
    LevelsInRangeList (blocksOfHtml literal) := by
  rw [blocksOfHtml]
  split
  · trivial
  · exact ⟨trivial, trivial⟩

theorem levelsInRangeItems_cellBlocks (row : List (List Span)) :
    LevelsInRangeItems (row.map fun spans => [Block.paragraph (Span.toInlines spans)]) := by
  induction row with
  | nil => trivial
  | cons spans row ih => exact ⟨⟨trivial, trivial⟩, ih⟩

theorem levelsInRange_tableBlock (alignments : List (Option Alignment))
    (rows : List (List (List Span))) : LevelsInRange (tableBlock alignments rows) := by
  have hrows : ∀ rows : List (List (List Span)), LevelsInRangeRows
      (rows.map fun row => row.map fun spans => [Block.paragraph (Span.toInlines spans)]) := by
    intro rows
    induction rows with
    | nil => trivial
    | cons row rows ih => exact ⟨levelsInRangeItems_cellBlocks row, ih⟩
  cases rows with
  | nil => trivial
  | cons row rows => exact ⟨levelsInRangeItems_cellBlocks row, hrows rows⟩

namespace Node

mutual

theorem levelsInRange_toBlocks : ∀ n : Node, LevelsInRangeList (toBlocks n)
  | .paragraph _ | .code _ _ | .rule => ⟨trivial, trivial⟩
  | .heading level _ => by
    refine ⟨?_, trivial⟩
    rw [LevelsInRange]
    omega
  | .list _ _ items => ⟨levelsInRange_itemsToBlocks items, trivial⟩
  | .quote nodes => ⟨levelsInRange_listToBlocks nodes, trivial⟩
  | .table alignments rows => ⟨levelsInRange_tableBlock alignments rows, trivial⟩
  | .html literal => levelsInRange_blocksOfHtml literal.toList

/-- **Nodes make blocks whose levels are in range**, whatever levels the nodes have. -/
theorem levelsInRange_listToBlocks : ∀ nodes : List Node, LevelsInRangeList (listToBlocks nodes)
  | [] => trivial
  | n :: rest =>
    levelsInRangeList_append.mpr ⟨levelsInRange_toBlocks n, levelsInRange_listToBlocks rest⟩

theorem levelsInRange_itemsToBlocks :
    ∀ items : List (List Node), LevelsInRangeItems (itemsToBlocks items)
  | [] => trivial
  | nodes :: rest => ⟨levelsInRange_listToBlocks nodes, levelsInRange_itemsToBlocks rest⟩

end

theorem isCanonical_toDocument (nodes : List Node) : (toDocument nodes).IsCanonical :=
  Document.isCanonical_normalize (levelsInRange_listToBlocks nodes)

end Node

end Markdown

/-! ### HTML -/

namespace Html

theorem headingLevel?_range {tag : String} {level : Nat} (h : headingLevel? tag = some level) :
    1 ≤ level ∧ level ≤ 6 := by
  obtain ⟨i, hi, rfl⟩ := Option.map_eq_some_iff.mp h
  obtain ⟨hlt, -⟩ := List.findIdx?_eq_some_iff_getElem.mp hi
  simp only [List.length_cons, List.length_nil] at hlt
  omega

theorem levelsInRange_gathered (pending : List Inline) : LevelsInRangeList (gathered pending) := by
  rw [gathered]
  split
  · trivial
  · exact ⟨trivial, trivial⟩

theorem levelsInRangeItems_append {xs ys : List (List Block)} :
    LevelsInRangeItems (xs ++ ys) ↔ LevelsInRangeItems xs ∧ LevelsInRangeItems ys := by
  induction xs with
  | nil => simp [LevelsInRangeItems]
  | cons x xs ih => rw [List.cons_append, LevelsInRangeItems, LevelsInRangeItems, ih, and_assoc]

theorem levelsInRange_gatheredItem {blocks : List Block} (h : LevelsInRangeList blocks) :
    LevelsInRangeItems (gatheredItem blocks) := by
  rw [gatheredItem]
  split
  · trivial
  · exact ⟨h, trivial⟩

/-- The levels in the cells of rows are in range. -/
def RowLevelsInRange (rows : List Row) : Prop :=
  ∀ r ∈ rows, LevelsInRangeItems (r.cells.map (·.1))

theorem levelsInRangeRows_map {rows : List Row} (h : RowLevelsInRange rows) :
    LevelsInRangeRows (rows.map fun r => r.cells.map (·.1)) := by
  induction rows with
  | nil => trivial
  | cons r rows ih =>
    rw [RowLevelsInRange, List.forall_mem_cons] at h
    exact ⟨h.1, ih h.2⟩

theorem levelsInRange_tableOf {rows : List Row} (h : RowLevelsInRange rows) :
    LevelsInRange (tableOf rows) := by
  match rows, h with
  | [], h => exact levelsInRangeRows_map h
  | ⟨true, cells⟩ :: rest, h =>
    rw [RowLevelsInRange, List.forall_mem_cons] at h
    exact ⟨h.1, levelsInRangeRows_map h.2⟩
  | ⟨false, cells⟩ :: rest, h => exact levelsInRangeRows_map h

mutual

theorem levelsInRange_blockOf (tag : String) (children : List Node) :
    LevelsInRangeList (blockOf tag children) := by
  rw [blockOf]
  split
  · exact ⟨trivial, trivial⟩
  split
  · next level h => exact ⟨headingLevel?_range h, trivial⟩
  split_ifs
  · exact ⟨levelsInRange_itemsFrom [] [] trivial children, trivial⟩
  · exact ⟨levelsInRange_blocksFrom [] children, trivial⟩
  · exact ⟨trivial, trivial⟩
  · exact ⟨trivial, trivial⟩
  · exact ⟨levelsInRange_tableOf (levelsInRange_rowsAmong children), trivial⟩
  · exact levelsInRange_blocksFrom [] children
termination_by (sizeOf children, 1)

theorem levelsInRange_blocksFrom (pending : List Inline) : ∀ nodes : List Node,
    LevelsInRangeList (blocksFrom pending nodes)
  | [] => by rw [blocksFrom]; exact levelsInRange_gathered pending
  | .text s :: rest => by rw [blocksFrom]; exact levelsInRange_blocksFrom _ rest
  | .other _ :: rest => by rw [blocksFrom]; exact levelsInRange_blocksFrom pending rest
  | .element tag attributes children :: rest => by
    rw [blocksFrom]
    split
    · rw [levelsInRangeList_append, levelsInRangeList_append]
      exact ⟨⟨levelsInRange_gathered pending, levelsInRange_blockOf tag children⟩,
        levelsInRange_blocksFrom [] rest⟩
    · exact levelsInRange_blocksFrom _ rest
termination_by nodes => (sizeOf nodes, 0)

theorem levelsInRange_itemsFrom (blocks : List Block) (pending : List Inline)
    (h : LevelsInRangeList blocks) : ∀ nodes : List Node,
    LevelsInRangeItems (itemsFrom blocks pending nodes)
  | [] => by
    rw [itemsFrom]
    exact levelsInRange_gatheredItem
      (levelsInRangeList_append.mpr ⟨h, levelsInRange_gathered pending⟩)
  | .text s :: rest => by rw [itemsFrom]; exact levelsInRange_itemsFrom blocks _ h rest
  | .other _ :: rest => by rw [itemsFrom]; exact levelsInRange_itemsFrom blocks pending h rest
  | .element tag attributes children :: rest => by
    have hp := levelsInRangeList_append.mpr ⟨h, levelsInRange_gathered pending⟩
    rw [itemsFrom]
    split_ifs
    · exact levelsInRangeItems_append.mpr ⟨levelsInRange_gatheredItem hp,
        levelsInRange_blocksFrom [] children, levelsInRange_itemsFrom [] [] trivial rest⟩
    · exact levelsInRange_itemsFrom _ []
        (levelsInRangeList_append.mpr ⟨hp, levelsInRange_blockOf tag children⟩) rest
    · exact levelsInRange_itemsFrom blocks _ h rest
termination_by nodes => (sizeOf nodes, 0)

theorem levelsInRange_rowsAmong : ∀ nodes : List Node, RowLevelsInRange (rowsAmong nodes)
  | [] => by rw [rowsAmong]; rintro r ⟨⟩
  | .text _ :: rest => by rw [rowsAmong]; exact levelsInRange_rowsAmong rest
  | .other _ :: rest => by rw [rowsAmong]; exact levelsInRange_rowsAmong rest
  | .element tag attributes children :: rest => by
    have hrest := levelsInRange_rowsAmong rest
    rw [rowsAmong]
    split_ifs
    · exact List.forall_mem_cons.mpr ⟨levelsInRange_cellsAmong children, hrest⟩
    · exact List.forall_mem_append.mpr ⟨levelsInRange_rowsAmong children, hrest⟩
    · exact hrest
termination_by nodes => (sizeOf nodes, 0)

theorem levelsInRange_cellsAmong : ∀ nodes : List Node,
    LevelsInRangeItems ((cellsAmong nodes).map (·.1))
  | [] => by rw [cellsAmong]; trivial
  | .text _ :: rest => by rw [cellsAmong]; exact levelsInRange_cellsAmong rest
  | .other _ :: rest => by rw [cellsAmong]; exact levelsInRange_cellsAmong rest
  | .element tag attributes children :: rest => by
    have hrest := levelsInRange_cellsAmong rest
    rw [cellsAmong]
    split
    · exact ⟨levelsInRange_blocksFrom [] children, hrest⟩
    · exact hrest
termination_by nodes => (sizeOf nodes, 0)

end

/-- **An HTML text is read as a canonical document.** -/
theorem isCanonical_readDocument (s : List Char) : (readDocument s).IsCanonical :=
  Document.isCanonical_normalize (levelsInRange_blocksFrom [] (bodyOf (parse s)))

end Html

/-! ### Containers -/

namespace Docx

/-- Bare text is read as paragraphs that are normal as they are: a line that is not blank is not
empty. -/
theorem isCanonical_plainDocument (s : List Char) : (plainDocument s).IsCanonical := by
  have hlines : ∀ line ∈ (Text.lines s).filter fun line => !Text.isBlank line, line ≠ [] := by
    rintro line hline rfl
    exact absurd (List.mem_filter.mp hline).2 (by decide)
  rw [plainDocument]
  generalize (Text.lines s).filter (fun line => !Text.isBlank line) = lines at hlines
  apply Document.isCanonical_of_isNormal
  · induction lines with
    | nil => trivial
    | cons line lines ih =>
      rw [List.forall_mem_cons] at hlines
      refine ⟨⟨?_, by simp, trivial⟩, ih hlines.2⟩
      rw [Inline.IsNormal]
      simpa using hlines.1
  · induction lines with
    | nil => trivial
    | cons line lines ih => exact ⟨trivial, ih (List.forall_mem_cons.mp hlines).2⟩

/-- **A container is read as a canonical document**, whatever its reader makes of it. -/
theorem ContainerReader.isCanonical_read {ε : Type} {r : ContainerReader ε} {bytes : Zip.Bytes}
    {d : Document} (h : r.read bytes = .ok d) : d.IsCanonical := by
  rw [read] at h
  split at h
  · cases h
  next html _ =>
  dsimp only at h
  split at h
  · split at h
    · cases h
    · next text _ => exact Except.ok.inj h ▸ isCanonical_plainDocument text
  · exact Except.ok.inj h ▸ Html.isCanonical_readDocument html

end Docx

/-! ### Formats -/

theorem Latex.isCanonical_parse (source : List Char) : (Latex.parse source).IsCanonical :=
  Document.isCanonical_normalize (Latex.levelsInRange_read source)

namespace Format

theorem isCanonical_readText {read : List Char → Document} (hr : ∀ s, (read s).IsCanonical)
    {bytes : List UInt8} {d : Document} (h : readText read bytes = .ok d) : d.IsCanonical := by
  rw [readText] at h
  split at h
  · next s _ => exact Except.ok.inj h ▸ hr s
  · cases h

theorem isCanonical_docx_read {o : Docx.Options} {bytes : List UInt8} {d : Document}
    (h : (docx o).read bytes = .ok d) : d.IsCanonical := by
  dsimp only [docx] at h
  split at h
  · next d' hd =>
    cases h
    rw [← Docx.packageReader_read] at hd
    exact Docx.ContainerReader.isCanonical_read hd
  · cases h

/-- **Every reader gives canonical documents**: that of LaTeX for every text, that of Markdown for
every tree that a text may be parsed into, that of containers for every way to look into them, and
so each of the standard formats for all octets. -/
theorem read_gives_canonical_documents :
    (∀ source, (Latex.parse source).IsCanonical) ∧
    (∀ nodes, (Markdown.Node.toDocument nodes).IsCanonical) ∧
    (∀ {ε : Type} (r : Docx.ContainerReader ε) (bytes : Zip.Bytes) (d : Document),
      r.read bytes = .ok d → d.IsCanonical) ∧
    ∀ (l : Latex.Options) (m : Markdown.Options) (o : Docx.Options),
      ∀ f ∈ [latex l, markdown m, docx o], ∀ (bytes : List UInt8) (d : Document),
        f.read bytes = .ok d → d.IsCanonical := by
  refine ⟨Latex.isCanonical_parse, Markdown.Node.isCanonical_toDocument,
    fun r bytes d => Docx.ContainerReader.isCanonical_read, fun l m o f hf bytes d h => ?_⟩
  rcases List.mem_cons.mp hf with rfl | hf
  · exact isCanonical_readText Latex.isCanonical_parse h
  rcases List.mem_cons.mp hf with rfl | hf
  · exact isCanonical_readText (fun s => Markdown.Node.isCanonical_toDocument _) h
  · cases List.mem_singleton.mp hf
    exact isCanonical_docx_read h

end Format

end Interdoc

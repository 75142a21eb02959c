import Interdoc.Proofs.Html.Nesting
import Interdoc.Proofs.Text.Trim

/-!
# Pieces read as blocks

Well nested pieces are read as a document by way of the nodes that they denote.  `Reads` relates
pieces to the blocks that they add, whatever comes after them, and there is such a relation for each
kind of content: inlines, items, rows and cells.  The lemmas are the constructions of each kind: a
sequence reads as a sequence, and an element as what its content makes.
-/

namespace Interdoc.Html

open Interdoc (Inline Block Alignment)

/-! ### Relations -/

/-- Pieces in an element are read as inlines. -/
def ReadsInlines (pieces : List Piece) (inlines : List Inline) : Prop :=
  ∃ nodes, Fills pieces nodes ∧ inlinesAmong nodes = inlines

/-- Pieces are read as blocks. -/
def Reads (pieces : List Piece) (blocks : List Block) : Prop :=
  ∃ nodes, Denotes pieces nodes ∧
    ∀ rest, blocksFrom [] (nodes ++ rest) = blocks ++ blocksFrom [] rest

/-- Pieces in a list are read as items. -/
def ReadsItems (pieces : List Piece) (items : List (List Block)) : Prop :=
  ∃ nodes, Denotes pieces nodes ∧
    ∀ rest, itemsFrom [] [] (nodes ++ rest) = items ++ itemsFrom [] [] rest

/-- Pieces in a row are read as cells, which are all header cells or all not. -/
def ReadsCells (isHeader : Bool) (pieces : List Piece)
    (cells : List (List Block × Option Alignment)) : Prop :=
  ∃ nodes, Denotes pieces nodes ∧
    (∀ rest, cellsAmong (nodes ++ rest) = cells ++ cellsAmong rest) ∧
    nodes.filterMap isHeaderCell? = List.replicate cells.length isHeader

/-- Pieces in a table are read as rows. -/
def ReadsRows (pieces : List Piece) (rows : List Row) : Prop :=
  ∃ nodes, Denotes pieces nodes ∧
    ∀ rest, rowsAmong (nodes ++ rest) = rows ++ rowsAmong rest

variable {pieces ps qs : List Piece}

/-! ### Inlines -/

theorem readsInlines_nil : ReadsInlines [] [] :=
  ⟨[], denotes_nil.fills, rfl⟩

theorem readsInlines_text {s : String} (h : s ≠ "") : ReadsInlines [.text s] [.text s] :=
  ⟨[.text s], by simpa only [if_neg h] using fills_text s, rfl⟩

/-! ### Blocks -/

section

variable (children : List Node)

theorem blockOf_quote : blockOf "blockquote" children = [.quote (blocksFrom [] children)] := by
  simp [blockOf, show headingLevel? "blockquote" = none by decide]

theorem blockOf_pre : blockOf "pre" children = [codeBlock children] := by
  simp [blockOf, show headingLevel? "pre" = none by decide]

theorem blockOf_rule : blockOf "hr" children = [.rule] := by
  simp [blockOf, show headingLevel? "hr" = none by decide]

theorem blockOf_table : blockOf "table" children = [tableOf (rowsAmong children)] := by
  simp [blockOf, show headingLevel? "table" = none by decide]

theorem blockOf_list {tag : String} (htag : tag = "ul" ∨ tag = "ol") :
    blockOf tag children = [.list (tag == "ol") (itemsFrom [] [] children)] := by
  have hnone : headingLevel? "ul" = none ∧ headingLevel? "ol" = none := by decide
  rcases htag with rfl | rfl <;> simp [blockOf, hnone]

end

theorem reads_nil : Reads [] [] :=
  ⟨[], denotes_nil, fun _ => rfl⟩

theorem reads_append {bs cs : List Block} (hp : Reads ps bs) (hq : Reads qs cs) :
    Reads (ps ++ qs) (bs ++ cs) := by
  obtain ⟨ms, hm, hbs⟩ := hp
  obtain ⟨ns, hn, hcs⟩ := hq
  refine ⟨ms ++ ns, denotes_append hm hn, fun rest => ?_⟩
  rw [List.append_assoc, hbs, hcs, List.append_assoc]

theorem Reads.blocksFrom_eq {blocks : List Block} {nodes : List Node}
    (h : ∀ rest, blocksFrom [] (nodes ++ rest) = blocks ++ blocksFrom [] rest) :
    blocksFrom [] nodes = blocks := by
  have hnil := h []
  rwa [List.append_nil, blocksFrom, gathered, List.all_nil, if_pos rfl, List.append_nil] at hnil

/-- **What is read as blocks is read as a document of them.** -/
theorem Reads.documentOf_eq {blocks : List Block} (h : Reads pieces blocks) :
    documentOf (nodesOf pieces) = (Document.mk blocks).normalize := by
  obtain ⟨nodes, hnodes, hblocks⟩ := h
  rw [documentOf, hnodes.fills.nodesOf_eq, blocksOf, Reads.blocksFrom_eq hblocks]

/-- A block element is read as the blocks that it makes. -/
theorem reads_element (tag : String) (attributes : List (String × String)) {nodes : List Node}
    (htag : blockTags.contains tag = true) (h : Fills pieces nodes) :
    Reads (.start tag attributes :: pieces ++ [.finish tag])
      (blockOf tag (childrenOf tag nodes)) := by
  refine ⟨_, denotes_element h, fun rest => ?_⟩
  rw [List.singleton_append, blocksFrom, if_pos htag, gathered, List.all_nil, if_pos rfl]
  rfl

theorem reads_paragraph {inlines : List Inline} (h : ReadsInlines pieces inlines) :
    Reads (element "p" pieces) [.paragraph inlines] := by
  obtain ⟨nodes, hnodes, rfl⟩ := h
  have := reads_element "p" [] (by decide) hnodes
  rwa [childrenOf, if_neg (by simp), blockOf, if_pos rfl] at this

theorem reads_heading {inlines : List Inline} {tag : String} {level : Nat}
    (htag : blockTags.contains tag = true) (hlevel : headingLevel? tag = some level)
    (h : ReadsInlines pieces inlines) : Reads (element tag pieces) [.heading level inlines] := by
  obtain ⟨nodes, hnodes, rfl⟩ := h
  have hne : tag ≠ "p" ∧ tag ≠ "table" := by
    have hnone : headingLevel? "p" = none ∧ headingLevel? "table" = none := by decide
    constructor <;> rintro rfl <;> simp [hnone] at hlevel
  have := reads_element tag [] htag hnodes
  rwa [childrenOf, if_neg (by simp [hne.2]), blockOf, if_neg hne.1, hlevel] at this

theorem reads_quote {blocks : List Block} (h : Reads pieces blocks) :
    Reads (element "blockquote" pieces) [.quote blocks] := by
  obtain ⟨nodes, hnodes, hblocks⟩ := h
  have := reads_element "blockquote" [] (by decide) hnodes.fills
  rwa [childrenOf, if_neg (by simp), blockOf_quote, Reads.blocksFrom_eq hblocks] at this

theorem reads_rule : Reads [.void "hr" []] [.rule] := by
  refine ⟨_, denotes_void, fun rest => ?_⟩
  rw [List.singleton_append, blocksFrom, if_pos (by decide), blockOf_rule]
  rfl

/-! ### Code -/

theorem chompLine_eq_self {s : String} (h : s.toList.getLast? ≠ some '\n') : chompLine s = s := by
  rw [chompLine, Text.stripSuffix?_eq_none h]

/-- Code is read without the line feed at its end. -/
theorem reads_code (s : String) :
    Reads (element "pre" (element "code" [.text s])) [.code (chompLine s) none] := by
  have htext : Node.textContentAmong
      [.element "code" [] (childrenOf "code" (if s = "" then [] else [.text s]))] = s := by
    rw [childrenOf, if_neg (by simp)]
    split
    · next he => rw [he]; rfl
    · simp [Node.textContentAmong, Node.textContent]
  have hcode : Denotes (element "code" [.text s]) _ := denotes_element (fills_text s)
  have := reads_element "pre" [] (by decide) hcode.fills
  rwa [childrenOf, if_neg (by simp), blockOf_pre, codeBlock, htext] at this

/-! ### Lists -/

theorem readsItems_nil : ReadsItems [] [] :=
  ⟨[], denotes_nil, fun _ => rfl⟩

theorem readsItems_append {is js : List (List Block)} (hp : ReadsItems ps is)
    (hq : ReadsItems qs js) : ReadsItems (ps ++ qs) (is ++ js) := by
  obtain ⟨ms, hm, his⟩ := hp
  obtain ⟨ns, hn, hjs⟩ := hq
  refine ⟨ms ++ ns, denotes_append hm hn, fun rest => ?_⟩
  rw [List.append_assoc, his, hjs, List.append_assoc]

theorem readsItems_item {blocks : List Block} (h : Reads pieces blocks) :
    ReadsItems (element "li" pieces) [blocks] := by
  obtain ⟨nodes, hnodes, hblocks⟩ := h
  refine ⟨_, denotes_element hnodes.fills, fun rest => ?_⟩
  rw [List.singleton_append, itemsFrom, if_pos rfl, childrenOf, if_neg (by simp),
    Reads.blocksFrom_eq hblocks]
  rfl

theorem reads_list {items : List (List Block)} {tag : String} (htag : tag = "ul" ∨ tag = "ol")
    (h : ReadsItems pieces items) :
    Reads (element tag pieces) [.list (tag == "ol") items] := by
  obtain ⟨nodes, hnodes, hitems⟩ := h
  have hitems : itemsFrom [] [] nodes = items := by
    have hnil := hitems []
    rwa [List.append_nil, itemsFrom, gathered, List.all_nil, if_pos rfl, List.append_nil,
      show gatheredItem [] = [] from rfl, List.append_nil] at hnil
  have hne : tag ≠ "table" := by rcases htag with rfl | rfl <;> decide
  have := reads_element tag [] (by rcases htag with rfl | rfl <;> decide)
    hnodes.fills
  rwa [childrenOf, if_neg (by simp [hne]), blockOf_list nodes htag, hitems] at this

/-! ### Tables -/

theorem readsCells_nil {isHeader : Bool} : ReadsCells isHeader [] [] :=
  ⟨[], denotes_nil, fun _ => rfl, rfl⟩

theorem readsCells_append {isHeader : Bool} {cs ds : List (List Block × Option Alignment)}
    (hp : ReadsCells isHeader ps cs) (hq : ReadsCells isHeader qs ds) :
    ReadsCells isHeader (ps ++ qs) (cs ++ ds) := by
  obtain ⟨ms, hm, hcs, hcs'⟩ := hp
  obtain ⟨ns, hn, hds, hds'⟩ := hq
  refine ⟨ms ++ ns, denotes_append hm hn, fun rest => ?_, ?_⟩
  · rw [List.append_assoc, hcs, hds, List.append_assoc]
  · rw [List.filterMap_append, hcs', hds', List.length_append, List.replicate_append_replicate]

theorem readsCells_flatMap {ι : Type} {isHeader : Bool} {f : ι → List Piece}
    {c : ι → List Block × Option Alignment} {is : List ι}
    (h : ∀ i ∈ is, ReadsCells isHeader (f i) [c i]) :
    ReadsCells isHeader (is.flatMap f) (is.map c) := by
  induction is with
  | nil => exact readsCells_nil
  | cons i is ih =>
    rw [List.forall_mem_cons] at h
    exact readsCells_append h.1 (ih h.2)

/-- The tag of a cell. -/
def cellTag (isHeader : Bool) : String :=
  if isHeader then "th" else "td"

theorem readsCells_cell {isHeader : Bool} {attributes : List (String × String)}
    {blocks : List Block} (h : Reads pieces blocks) :
    ReadsCells isHeader
      (.start (cellTag isHeader) attributes :: pieces ++ [.finish (cellTag isHeader)])
      [(blocks, cellAlignment? attributes)] := by
  obtain ⟨nodes, hnodes, hblocks⟩ := h
  refine ⟨_, denotes_element hnodes.fills, fun rest => ?_, ?_⟩
  · rw [List.singleton_append, cellsAmong]
    cases isHeader
    all_goals
      rw [cellTag, if_pos (by decide), childrenOf, if_neg (by simp), Reads.blocksFrom_eq hblocks]
      rfl
  · cases isHeader <;> rfl

theorem readsRows_nil : ReadsRows [] [] :=
  ⟨[], denotes_nil, fun _ => rfl⟩

theorem readsRows_append {rs ss : List Row} (hp : ReadsRows ps rs) (hq : ReadsRows qs ss) :
    ReadsRows (ps ++ qs) (rs ++ ss) := by
  obtain ⟨ms, hm, hrs⟩ := hp
  obtain ⟨ns, hn, hss⟩ := hq
  refine ⟨ms ++ ns, denotes_append hm hn, fun rest => ?_⟩
  rw [List.append_assoc, hrs, hss, List.append_assoc]

theorem readsRows_flatMap {ι : Type} {f : ι → List Piece} {r : ι → Row} {is : List ι}
    (h : ∀ i ∈ is, ReadsRows (f i) [r i]) : ReadsRows (is.flatMap f) (is.map r) := by
  induction is with
  | nil => exact readsRows_nil
  | cons i is ih =>
    rw [List.forall_mem_cons] at h
    exact readsRows_append h.1 (ih h.2)

theorem readsRows_row {isHeader : Bool} {cells : List (List Block × Option Alignment)}
    (hne : cells ≠ []) (h : ReadsCells isHeader pieces cells) :
    ReadsRows (element "tr" pieces) [⟨isHeader, cells⟩] := by
  obtain ⟨nodes, hnodes, hcells, hheader⟩ := h
  have hcells : cellsAmong nodes = cells := by
    have hnil := hcells []
    rwa [List.append_nil, cellsAmong, List.append_nil] at hnil
  have hisHeader : isHeaderRow nodes = isHeader := by
    obtain ⟨c, cs, rfl⟩ := List.exists_cons_of_ne_nil hne
    rw [isHeaderRow, hheader]
    cases isHeader <;> simp [List.replicate_succ]
  refine ⟨_, denotes_element hnodes.fills, fun rest => ?_⟩
  rw [List.singleton_append, rowsAmong, if_pos rfl, childrenOf, if_neg (by simp), hcells, hisHeader]
  rfl

theorem reads_table {rows : List Row} (h : ReadsRows pieces rows) :
    Reads (element "table" pieces) [tableOf rows] := by
  obtain ⟨nodes, hnodes, hrows⟩ := h
  have hrows : rowsAmong nodes = rows := by
    have hnil := hrows []
    rwa [List.append_nil, rowsAmong, List.append_nil] at hnil
  have hgroup : rowsAmong (childrenOf "table" nodes) = rows := by
    rw [childrenOf]
    split
    · rw [rowsAmong, if_neg (by decide), if_pos (by decide), hrows, rowsAmong, List.append_nil]
    · exact hrows
  have := reads_element "table" [] (by decide) hnodes.fills
  rwa [blockOf_table, hgroup] at this

end Interdoc.Html

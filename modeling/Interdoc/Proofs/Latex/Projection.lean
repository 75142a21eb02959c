import Interdoc.Proofs.Document.Congruence
import Interdoc.Proofs.Document.VisibleText
import Interdoc.Proofs.Latex.RoundTrip

/-!
# Conversion through LaTeX is a projection

Not every document is expressible, but the image of one is (`expressibleList_imageList`), and it is
in normal form like everything that is read (`normalize_parse`).  So a document that has been
printed and read once comes back unchanged from then on.

Nothing visible is lost on the way: the blanks at the ends of a line are no visible characters
(`visible_tidy`), a block in a cell becomes its plain text (`visible_cellInlines`), and what
`image` drops has no text (`visibleText_imageList`).
-/

namespace Interdoc.Latex

open Inline (tidy trimStart trimEnd plainText plainTextList spaceEndsList)
open Text (visible)
open Block (visibleText)

/-! ### Visible text of a line -/

theorem visible_trimStart (xs : List Inline) :
    visible (plainTextList (trimStart xs)) = visible (plainTextList xs) := by
  fun_cases trimStart xs with
  | case1 s rest =>
    rw [Inline.plainTextList_cons, Text.visible_append, Inline.visible_plainTextList_cons,
      plainText, plainText, Text.visible_ofList_trimLeft, String.ofList_toList]
  | case2 => rfl

theorem visible_trimEnd (xs : List Inline) :
    visible (plainTextList (trimEnd xs)) = visible (plainTextList xs) := by
  fun_induction trimEnd xs with
  | case1 => rfl
  | case2 s =>
    rw [Inline.plainTextList_cons, Text.visible_append, Inline.visible_plainTextList_cons,
      plainText, plainText, Text.visible_ofList_trimRight, String.ofList_toList]
  | case3 i rest _ ih =>
    rw [Inline.visible_plainTextList_cons, ih, Inline.visible_plainTextList_cons]

/-- **A line keeps its visible characters.** -/
theorem visible_tidy (xs : List Inline) :
    visible (plainTextList (tidy xs)) = visible (plainTextList xs) := by
  rw [tidy, visible_trimEnd, visible_trimStart, Inline.plainTextList_normalizeList,
    Inline.visible_spaceEndsList]

/-- What vanishes on a line is not visible. -/
theorem visible_of_tidy_eq_nil {xs : List Inline} (h : tidy xs = []) :
    visible (plainTextList xs) = [] := by
  rw [← visible_tidy, h]
  rfl

/-! ### Visible text of a table -/

theorem visible_cellBlockInlines (b : Block) :
    visible (plainTextList (cellBlockInlines b)) = visible b.plainText := by
  have htext (s : String) : plainTextList [.text s] = s := String.append_empty
  cases b with
  | paragraph xs => rw [cellBlockInlines, Block.plainText]
  | heading level xs => rw [cellBlockInlines, Block.plainText]
  | _ => exact congrArg visible (htext _)

/-- **A cell keeps its visible characters**, whatever its blocks are. -/
theorem visible_cellInlines (blocks : List Block) :
    visible (plainTextList (cellInlines blocks)) = visibleText blocks := by
  have hnil {xs : List Inline} (h : printInlines xs = []) : visible (plainTextList xs) = [] := by
    apply visible_of_tidy_eq_nil
    rw [tidy_eq_nil_iff, h]
    rfl
  induction blocks with
  | nil => rfl
  | cons b rest ih =>
    have hb := visible_cellBlockInlines b
    rw [cellInlines, Block.visibleText_cons, ← hb, ← ih]
    split
    · next he => rw [hnil he, List.nil_append]
    · split
      · next he => rw [hnil he, List.append_nil]
      · -- the space between two blocks is the only addition
        have hspace : visible (plainText (.text " ")) = [] := Text.visible_of_isBlank (by decide)
        rw [Inline.visible_plainTextList_append, Inline.visible_plainTextList_cons, hspace,
          List.nil_append]

theorem toList_append_map_imageRow (header : Option (List (List Block)))
    (rows : List (List (List Block))) : (header.map imageRow).toList ++ rows.map imageRow
      = (header.toList ++ rows).map imageRow := by
  rw [Option.toList_map, List.map_append]

theorem visibleText_imageRow (cells : List (List Block)) :
    (imageRow cells).flatMap visibleText = cells.flatMap visibleText := by
  rw [imageRow]
  split
  · next he =>
    rw [he]
    rfl
  · rw [List.flatMap_map]
    apply List.flatMap_congr
    intro blocks _
    rw [Block.visibleText_cons, Block.plainText, visible_tidy, visible_cellInlines]
    exact List.append_nil _

/-! ### Visible text of a document -/

mutual

theorem visibleText_image : ∀ b : Block, visibleText (image b) = visible b.plainText
  | .paragraph xs => by
    rw [image, Block.plainText]
    split
    · next he => rw [visible_of_tidy_eq_nil he]; rfl
    · rw [Block.visibleText_cons, Block.plainText, visible_tidy]
      exact List.append_nil _
  | .heading level xs => by
    rw [image, Block.visibleText_cons, Block.plainText, Block.plainText, visible_tidy]
    exact List.append_nil _
  | .list ordered items => by
    rw [image, Block.visibleText_cons, Block.visible_plainText_list, visibleText_imageItems items,
      Block.visible_plainText_list]
    exact List.append_nil _
  | .quote blocks => by
    rw [image, Block.visibleText_cons, Block.visible_plainText_quote, visibleText_imageList blocks,
      Block.visible_plainText_quote]
    exact List.append_nil _
  | .code text language => by
    rw [image, Block.visibleText_cons]
    exact List.append_nil _
  | .rule => rfl
  | .table header rows alignments => by
    rw [image, Block.visibleText_cons, Block.visible_plainText_table, toList_append_map_imageRow,
      List.flatMap_map, Block.visible_plainText_table]
    simp only [visibleText_imageRow]
    exact List.append_nil _

/-- **The image keeps the visible characters** of blocks, in their order. -/
theorem visibleText_imageList : ∀ blocks : List Block,
    visibleText (imageList blocks) = visibleText blocks
  | [] => rfl
  | b :: rest => by
    rw [imageList, Block.visibleText_append, visibleText_image b, visibleText_imageList rest,
      Block.visibleText_cons]

theorem visibleText_imageItems : ∀ items : List (List Block),
    (imageItems items).flatMap visibleText = items.flatMap visibleText
  | [] => rfl
  | blocks :: rest => by
    have hb := visibleText_imageList blocks
    rw [imageItems, List.flatMap_cons, List.flatMap_cons, visibleText_imageItems rest, ← hb]
    congr 1
    split
    · -- the paragraph that fills an empty item has no text
      next he => rw [he]; rfl
    · rfl

end

/-! ### The image is expressible -/

theorem fitsLine_tidy (xs : List Inline) : FitsLine (tidy xs) where
  oneLine := (Inline.lined_tidy xs).oneLine
  solidStart := solidStart_tidy xs
  solidEnd := solidEnd_tidy xs

theorem fitsTable_map_imageRow (rows : List (List (List Block))) :
    FitsTable (rows.map imageRow) := by
  intro cells hcells
  obtain ⟨row, -, rfl⟩ := List.mem_map.mp hcells
  rw [imageRow]
  split
  · refine ⟨List.cons_ne_nil _ _, ?_⟩
    rw [List.forall_mem_singleton]
    decide
  · next hne =>
    refine ⟨mt List.map_eq_nil_iff.mp hne, ?_⟩
    intro blocks hblocks
    obtain ⟨cell, -, rfl⟩ := List.mem_map.mp hblocks
    exact fitsLine_tidy _

theorem length_imageRow_le {cells : List (List Block)} {n : Nat} (h : cells.length ≤ n)
    (hn : 1 ≤ n) : (imageRow cells).length ≤ n := by
  rw [imageRow]
  split
  · exact hn
  · rwa [List.length_map]

theorem le_length_imageAlignments (as : List Alignment) (n : Nat) :
    n ≤ (imageAlignments as n).length := by
  rw [imageAlignments, List.length_append, List.length_replicate]
  omega

theorem expressibleList_append {bs cs : List Block} (hb : ExpressibleList bs)
    (hc : ExpressibleList cs) : ExpressibleList (bs ++ cs) := by
  induction bs with
  | nil => exact hc
  | cons b bs ih => exact ⟨hb.1, ih hb.2⟩

mutual

theorem expressibleList_image : ∀ b : Block, Printable b → ExpressibleList (image b)
  | .paragraph xs, _ => by
    rw [image]
    split
    · trivial
    · next he => exact ⟨⟨he, fitsLine_tidy xs⟩, trivial⟩
  | .heading level xs, _ => by
    have hl : 1 ≤ headingLevel level ∧ headingLevel level ≤ 5 := by
      rw [headingLevel]
      omega
    exact ⟨⟨hl.1, hl.2, fitsLine_tidy xs⟩, trivial⟩
  | .list ordered items, h => ⟨expressibleItems_imageItems items h, trivial⟩
  | .quote blocks, h => ⟨expressibleList_imageList blocks h, trivial⟩
  | .code text language, h => ⟨h, trivial⟩
  | .rule, _ => ⟨trivial, trivial⟩
  | .table header rows alignments, _ => by
    rw [image]
    -- the alignments reach to the widest row, and no row gets wider than that
    refine ⟨⟨?_, _, rfl, ?_, ?_⟩, trivial⟩
    · rw [toList_append_map_imageRow]
      exact fitsTable_map_imageRow _
    · exact (one_le_columnCount header rows).trans (le_length_imageAlignments _ _)
    · rw [toList_append_map_imageRow]
      intro cells hcells
      obtain ⟨row, hrow, rfl⟩ := List.mem_map.mp hcells
      exact (length_imageRow_le (length_le_columnCount hrow) (one_le_columnCount header rows)).trans
        (le_length_imageAlignments _ _)

/-- **The image is expressible**, whatever the blocks were. -/
theorem expressibleList_imageList : ∀ blocks : List Block,
    PrintableList blocks → ExpressibleList (imageList blocks)
  | [], _ => trivial
  | b :: rest, h =>
    expressibleList_append (expressibleList_image b h.1) (expressibleList_imageList rest h.2)

theorem expressibleItems_imageItems : ∀ items : List (List Block),
    PrintableItems items → ExpressibleItems (imageItems items)
  | [], _ => trivial
  | blocks :: rest, h => by
    have hb := expressibleList_imageList blocks h.1
    rw [imageItems]
    refine ⟨?_, expressibleItems_imageItems rest h.2⟩
    split
    · exact .inl rfl
    · exact .inr hb

end

theorem normalize_parse (source : List Char) : (parse source).normalize = parse source :=
  Document.normalize_eq_of_equiv (.symm (Document.equiv_normalize _))

/-- What is read of a printed document is expressible. -/
theorem expressible_parse_print (options : Options) {d : Document} (h : PrintableList d.blocks) :
    Expressible (parse (print options d)) where
  normal := normalize_parse _
  blocks := by
    rw [parse_print options h]
    exact expressibleList_imageList d.blocks h

/-- **Conversion through LaTeX is a projection that loses no text**: doing it twice is doing it
once, and the visible characters of the document stay the same, in the same order. -/
theorem parse_print_projection (options : Options) {d : Document} (h : PrintableList d.blocks) :
    parse (print options (parse (print options d))) = parse (print options d) ∧
      (parse (print options d)).visibleText = d.visibleText := by
  have he := expressible_parse_print options h
  constructor
  · rw [parse_print options (printableList_of_expressible he.blocks), he.imageList_eq]
  · rw [parse_print options h, Document.visibleText, visibleText_imageList, Document.visibleText]

/-- A document that no printing keeps as it is: a deep heading, a paragraph of blanks, a list
without text and a ragged table with a list and a paragraph in one cell. -/
def raggedDocument : Document :=
  ⟨[.heading 200 [.text " A", .text "\n& B "], .paragraph [.text "\t"],
    .list false [[.paragraph []], [.quote [.code "x" none]]],
    .table none [[], [[.list true [[.paragraph [.text "k"]]], .paragraph [.code "1\r2"]], []]]
      none]⟩

/-- The ragged document is converted, once and for all. -/
theorem parse_print_raggedDocument : PrintableList raggedDocument.blocks ∧
    parse (print ⟨false⟩ (parse (print ⟨false⟩ raggedDocument)))
      = parse (print ⟨false⟩ raggedDocument) ∧
    (parse (print ⟨false⟩ raggedDocument)).visibleText = "A&Bxk12".toList := by
  have hcode : Printable (.code "x" none) := ⟨by decide, by decide⟩
  have h : PrintableList raggedDocument.blocks :=
    ⟨trivial, trivial, ⟨⟨trivial, trivial⟩, ⟨⟨hcode, trivial⟩, trivial⟩, trivial⟩, trivial, trivial⟩
  have hv : raggedDocument.visibleText = "A&Bxk12".toList := by decide
  obtain ⟨hp, ht⟩ := parse_print_projection ⟨false⟩ h
  exact ⟨h, hp, ht.trans hv⟩

end Interdoc.Latex

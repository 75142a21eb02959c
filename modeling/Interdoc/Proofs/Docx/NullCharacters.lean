import Interdoc.Proofs.Document.VisibleText
import Interdoc.Proofs.Docx.HtmlCharacters
import Interdoc.Proofs.Docx.TableHtml

/-!
# Documents without null characters

The texts of a layout are those of the document, on one line or cut into lines, what stands for
images, and the plain texts of blocks in cells that are no paragraphs.  So there is no null
character in the layout of a document that has none (`hasNoNulls_layout`).  In the documents that a
package can express there is none, since it is a control character
(`blockHasNoNulls_of_isPlainBlock`).
-/

namespace Interdoc.Docx

open Interdoc (Inline Block Alignment)
open Xml (unbroken)

/-! ### Trees without null characters -/

/-- Whether there is no null character in a text. -/
def hasNoNulls (s : String) : Bool := s.toList.all (· != '\x00')

mutual

/-- Whether there is no null character in an inline. -/
def inlineHasNoNulls : Inline → Bool
  | .text s | .code s => hasNoNulls s
  | .strong inlines | .emphasis inlines | .underline inlines => inlinesHaveNoNulls inlines
  | .lineBreak => true
  | .link href inlines => hasNoNulls href && inlinesHaveNoNulls inlines
  | .image src alt => hasNoNulls src && alt.all hasNoNulls

/-- Whether there is no null character in inlines. -/
def inlinesHaveNoNulls : List Inline → Bool
  | [] => true
  | i :: rest => inlineHasNoNulls i && inlinesHaveNoNulls rest

end

mutual

/-- Whether there is no null character in a block. -/
def blockHasNoNulls : Block → Bool
  | .paragraph inlines | .heading _ inlines => inlinesHaveNoNulls inlines
  | .list _ items => itemsHaveNoNulls items
  | .quote blocks => blocksHaveNoNulls blocks
  | .code text _ => hasNoNulls text
  | .rule => true
  | .table none rows _ => rowsHaveNoNulls rows
  | .table (some header) rows _ => itemsHaveNoNulls header && rowsHaveNoNulls rows

/-- Whether there is no null character in blocks. -/
def blocksHaveNoNulls : List Block → Bool
  | [] => true
  | b :: rest => blockHasNoNulls b && blocksHaveNoNulls rest

/-- Whether there is no null character in items or cells. -/
def itemsHaveNoNulls : List (List Block) → Bool
  | [] => true
  | blocks :: rest => blocksHaveNoNulls blocks && itemsHaveNoNulls rest

/-- Whether there is no null character in rows. -/
def rowsHaveNoNulls : List (List (List Block)) → Bool
  | [] => true
  | cells :: rest => itemsHaveNoNulls cells && rowsHaveNoNulls rest

end

section

variable {blocks : List Block} {items : List (List Block)} {rows : List (List (List Block))}

theorem blocksHaveNoNulls_iff :
    blocksHaveNoNulls blocks = true ↔ ∀ b ∈ blocks, blockHasNoNulls b = true := by
  induction blocks with
  | nil => simp [blocksHaveNoNulls]
  | cons b blocks ih => rw [blocksHaveNoNulls, Bool.and_eq_true, ih, List.forall_mem_cons]

theorem itemsHaveNoNulls_iff :
    itemsHaveNoNulls items = true ↔ ∀ blocks ∈ items, blocksHaveNoNulls blocks = true := by
  induction items with
  | nil => simp [itemsHaveNoNulls]
  | cons blocks items ih => rw [itemsHaveNoNulls, Bool.and_eq_true, ih, List.forall_mem_cons]

theorem rowsHaveNoNulls_iff :
    rowsHaveNoNulls rows = true ↔ ∀ cells ∈ rows, itemsHaveNoNulls cells = true := by
  induction rows with
  | nil => simp [rowsHaveNoNulls]
  | cons cells rows ih => rw [rowsHaveNoNulls, Bool.and_eq_true, ih, List.forall_mem_cons]

theorem tableHasNoNulls_iff {header : Option (List (List Block))}
    {alignments : Option (List Alignment)} :
    blockHasNoNulls (.table header rows alignments) = true ↔
      ∀ cells ∈ header.toList ++ rows, itemsHaveNoNulls cells = true := by
  cases header with
  | none => exact rowsHaveNoNulls_iff
  | some cells =>
    rw [blockHasNoNulls, Bool.and_eq_true, rowsHaveNoNulls_iff, Option.toList_some,
      List.singleton_append, List.forall_mem_cons]

end

variable {s t : String} {o : Options}

theorem hasNoNulls_iff : hasNoNulls s = true ↔ '\x00' ∉ s.toList := by
  simp only [hasNoNulls, List.all_eq_true, bne_iff_ne, ne_eq]
  exact ⟨fun h hmem => h _ hmem rfl, fun h c hc heq => h (heq ▸ hc)⟩

theorem hasNoNulls_append (hs : hasNoNulls s = true) (ht : hasNoNulls t = true) :
    hasNoNulls (s ++ t) = true := by
  rw [hasNoNulls, String.toList_append, List.all_append, Bool.and_eq_true]
  exact ⟨hs, ht⟩

theorem hasNoNulls_onOneLine (h : hasNoNulls s = true) : hasNoNulls (onOneLine s) = true := by
  rw [hasNoNulls, List.all_eq_true] at h ⊢
  rw [onOneLine, String.toList_ofList, List.forall_mem_map]
  intro c hc
  split
  · decide
  · exact h c hc

theorem hasNoNulls_imageText {alt : Option String} (hsrc : hasNoNulls s = true)
    (halt : alt.all hasNoNulls = true) : hasNoNulls (imageText s alt) = true := by
  have hname : hasNoNulls (alt.getD "image") = true := by
    cases alt with
    | none => decide
    | some a => exact halt
  have hmarks : hasNoNulls "[" = true ∧ hasNoNulls "](" = true ∧ hasNoNulls ")" = true := by
    decide
  exact hasNoNulls_append (hasNoNulls_append (hasNoNulls_append
    (hasNoNulls_append hmarks.1 hname) hmarks.2.1) hsrc) hmarks.2.2

theorem null_not_mem_unbroken (h : hasNoNulls s = true) : '\x00' ∉ (unbroken s).toList := by
  rw [unbroken, String.toList_ofList, List.mem_filter]
  exact fun hmem => hasNoNulls_iff.mp h hmem.1

/-! ### Inlines -/

mutual

theorem avoids_linkRuns (f : Formatting) : ∀ {i : Inline}, inlineHasNoNulls i = true →
    ∀ r ∈ linkRuns o f i, r.Avoids '\x00'
  | .strong _, h | .emphasis _, h | .underline _, h => avoids_linkRunsAmong _ h
  | .link _ _, h => avoids_linkRunsAmong f (Bool.and_eq_true_iff.mp h).2
  | .text _, h => List.forall_mem_singleton.mpr (null_not_mem_unbroken (hasNoNulls_onOneLine h))
  | .code _, h => List.forall_mem_singleton.mpr (null_not_mem_unbroken h)
  | .lineBreak, _ => List.forall_mem_singleton.mpr trivial
  | .image _ _, h =>
    have h := Bool.and_eq_true_iff.mp h
    List.forall_mem_singleton.mpr (null_not_mem_unbroken (hasNoNulls_imageText h.1 h.2))

theorem avoids_linkRunsAmong (f : Formatting) : ∀ {xs : List Inline},
    inlinesHaveNoNulls xs = true → ∀ r ∈ linkRunsAmong o f xs, r.Avoids '\x00'
  | [], _ => List.forall_mem_nil _
  | _ :: _, h =>
    have h := Bool.and_eq_true_iff.mp h
    List.forall_mem_append.mpr ⟨avoids_linkRuns f h.1, avoids_linkRunsAmong f h.2⟩

end

mutual

theorem avoids_partsOf (f : Formatting) : ∀ {i : Inline}, inlineHasNoNulls i = true →
    ∀ part ∈ partsOf o f i, part.Avoids '\x00'
  | .strong _, h | .emphasis _, h | .underline _, h => avoids_partsAmong _ h
  | .link _ _, h =>
    have h := Bool.and_eq_true_iff.mp h
    List.forall_mem_singleton.mpr ⟨null_not_mem_unbroken h.1, avoids_linkRunsAmong _ h.2⟩
  | .text _, h => List.forall_mem_singleton.mpr (null_not_mem_unbroken (hasNoNulls_onOneLine h))
  | .code _, h => List.forall_mem_singleton.mpr (null_not_mem_unbroken h)
  | .lineBreak, _ => List.forall_mem_singleton.mpr trivial
  | .image _ _, h =>
    have h := Bool.and_eq_true_iff.mp h
    List.forall_mem_singleton.mpr (null_not_mem_unbroken (hasNoNulls_imageText h.1 h.2))

/-- **The parts for inlines have no null character** if the inlines have none. -/
theorem avoids_partsAmong (f : Formatting) : ∀ {xs : List Inline},
    inlinesHaveNoNulls xs = true → ∀ part ∈ partsAmong o f xs, part.Avoids '\x00'
  | [], _ => List.forall_mem_nil _
  | _ :: _, h =>
    have h := Bool.and_eq_true_iff.mp h
    List.forall_mem_append.mpr ⟨avoids_partsOf f h.1, avoids_partsAmong f h.2⟩

end

/-! ### Plain text -/

theorem hasNoNulls_iff_visible : hasNoNulls s = true ↔ '\x00' ∉ Text.visible s := by
  have hnull : (!Text.isBlankChar '\x00') = true := by decide
  rw [hasNoNulls_iff, Text.visible, List.mem_filter]
  simp [hnull]

mutual

theorem hasNoNulls_inlineText : ∀ {i : Inline}, inlineHasNoNulls i = true →
    hasNoNulls i.plainText = true
  | .strong _, h | .emphasis _, h | .underline _, h => hasNoNulls_inlinesText h
  | .link _ _, h => hasNoNulls_inlinesText (Bool.and_eq_true_iff.mp h).2
  | .text _, h | .code _, h => h
  | .lineBreak, _ | .image _ none, _ => rfl
  | .image _ (some _), h => (Bool.and_eq_true_iff.mp h).2

theorem hasNoNulls_inlinesText : ∀ {xs : List Inline}, inlinesHaveNoNulls xs = true →
    hasNoNulls (Inline.plainTextList xs) = true
  | [], _ => by decide
  | _ :: _, h =>
    have h := Bool.and_eq_true_iff.mp h
    hasNoNulls_append (hasNoNulls_inlineText h.1) (hasNoNulls_inlinesText h.2)

end

mutual

theorem hasNoNulls_plainText : ∀ {b : Block}, blockHasNoNulls b = true →
    hasNoNulls b.plainText = true
  | .paragraph _, h | .heading _ _, h => hasNoNulls_inlinesText h
  | .list ordered items, h => by
    rw [hasNoNulls_iff_visible, Block.visible_plainText_list]
    exact null_not_mem_items h
  | .quote blocks, h => by
    rw [hasNoNulls_iff_visible, Block.visible_plainText_quote]
    exact null_not_mem_visibleText h
  | .code _ _, h => h
  | .rule, _ => by decide
  | .table none rows _, h => by
    rw [hasNoNulls_iff_visible, Block.visible_plainText_table]
    exact null_not_mem_rows h
  | .table (some header) rows _, h => by
    rw [hasNoNulls_iff_visible, Block.visible_plainText_table]
    rw [blockHasNoNulls, Bool.and_eq_true] at h
    rw [Option.toList_some, List.singleton_append, List.flatMap_cons, List.mem_append, not_or]
    exact ⟨null_not_mem_items h.1, null_not_mem_rows h.2⟩

theorem null_not_mem_visibleText : ∀ {blocks : List Block}, blocksHaveNoNulls blocks = true →
    '\x00' ∉ Block.visibleText blocks
  | [], _ => List.not_mem_nil
  | _ :: _, h => by
    rw [blocksHaveNoNulls, Bool.and_eq_true] at h
    rw [Block.visibleText_cons, List.mem_append, not_or]
    exact ⟨hasNoNulls_iff_visible.mp (hasNoNulls_plainText h.1), null_not_mem_visibleText h.2⟩

theorem null_not_mem_items : ∀ {items : List (List Block)}, itemsHaveNoNulls items = true →
    '\x00' ∉ items.flatMap Block.visibleText
  | [], _ => List.not_mem_nil
  | _ :: _, h => by
    rw [itemsHaveNoNulls, Bool.and_eq_true] at h
    rw [List.flatMap_cons, List.mem_append, not_or]
    exact ⟨null_not_mem_visibleText h.1, null_not_mem_items h.2⟩

theorem null_not_mem_rows : ∀ {rows : List (List (List Block))}, rowsHaveNoNulls rows = true →
    '\x00' ∉ rows.flatMap fun cells => cells.flatMap Block.visibleText
  | [], _ => List.not_mem_nil
  | _ :: _, h => by
    rw [rowsHaveNoNulls, Bool.and_eq_true] at h
    rw [List.flatMap_cons, List.mem_append, not_or]
    exact ⟨null_not_mem_items h.1, null_not_mem_rows h.2⟩

end

/-! ### Tables -/

theorem avoids_cellParagraph {base : WrittenParagraph} {b : Block} (h : blockHasNoNulls b = true) :
    (cellParagraph o base b).Avoids '\x00' := by
  cases b with
  | paragraph xs | heading level xs => exact avoids_partsAmong {} h
  | list | quote | code | rule | table =>
    exact List.forall_mem_singleton.mpr (null_not_mem_unbroken (hasNoNulls_plainText h))

theorem avoids_tableRow {columns : Nat} {alignments : List Alignment} {isHeader : Bool}
    {cells : List (List Block)} (h : itemsHaveNoNulls cells = true) :
    ∀ cell ∈ tableRow o columns alignments isHeader cells, ∀ p ∈ cell, p.Avoids '\x00' := by
  refine List.forall_mem_map.mpr fun column _ => ?_
  have hblocks : ∀ b ∈ (cells[column]?).getD [], blockHasNoNulls b = true := by
    cases hc : cells[column]? with
    | none => exact List.forall_mem_nil _
    | some blocks =>
      exact blocksHaveNoNulls_iff.mp
        (itemsHaveNoNulls_iff.mp h blocks (List.mem_of_getElem? hc))
  rw [cellParagraphs]
  split
  · exact List.forall_mem_singleton.mpr (List.forall_mem_nil _)
  · exact List.forall_mem_map.mpr fun b hb => avoids_cellParagraph (hblocks b hb)

theorem avoids_tableItem {header : Option (List (List Block))} {rows : List (List (List Block))}
    {alignments : Option (List Alignment)}
    (h : blockHasNoNulls (.table header rows alignments) = true) :
    ∀ p ∈ (tableItem o header rows alignments).paragraphs, p.Avoids '\x00' := by
  have hcells := tableHasNoNulls_iff.mp h
  intro p hp
  obtain ⟨cell, hcell, hp⟩ := List.mem_flatten.mp hp
  obtain ⟨row, hrow, hcell⟩ := List.mem_flatten.mp hcell
  rw [List.mem_append, Option.toList_map, List.mem_map, List.mem_map] at hrow
  obtain ⟨cells, hc, rfl⟩ | ⟨cells, hc, rfl⟩ := hrow
  · exact avoids_tableRow (hcells cells (List.mem_append_left rows hc)) cell hcell p hp
  · exact avoids_tableRow (hcells cells (List.mem_append_right header.toList hc)) cell hcell p hp

/-! ### Blocks -/

namespace Layout

theorem HasNoNulls.append {l l' : Layout} (h : l.HasNoNulls) (h' : l'.HasNoNulls) :
    (l ++ l').HasNoNulls :=
  List.forall_mem_append.mpr ⟨h, h'⟩

theorem hasNoNulls_empty : empty.HasNoNulls :=
  List.forall_mem_nil _

theorem hasNoNulls_paragraph (base : WrittenParagraph) {xs : List Inline}
    (h : inlinesHaveNoNulls xs = true) : (Layout.paragraph o base xs).HasNoNulls :=
  List.forall_mem_singleton.mpr (List.forall_mem_singleton.mpr (avoids_partsAmong {} h))

end Layout

open Layout (hasNoNulls_paragraph hasNoNulls_empty)

/-- An item of a single text. -/
theorem hasNoNulls_item {style : String} {properties : RunProperties} (h : hasNoNulls s = true) :
    ∀ p ∈ (LayoutItem.paragraph
      { style := some style, parts := [.run ⟨properties, .text s⟩] }).paragraphs,
      p.Avoids '\x00' :=
  List.forall_mem_singleton.mpr (List.forall_mem_singleton.mpr (null_not_mem_unbroken h))

theorem hasNoNulls_codeLines {text : String} (h : hasNoNulls text = true) :
    ∀ line ∈ Text.splitOn '\n' text.toList, hasNoNulls (String.ofList line) = true := by
  intro line hline
  rw [hasNoNulls, List.all_eq_true] at h ⊢
  rw [String.toList_ofList]
  exact fun c hc => h c ((Text.infix_of_mem_splitOn hline).subset hc)

/-- There is no null character in a block, and none in its layout at any place. -/
def LaidOutWithoutNulls (o : Options) (b : Block) : Prop :=
  blockHasNoNulls b = true ∧ ∀ next depth, (layoutBlock o next depth b).HasNoNulls

section

variable {blocks : List Block} {items : List (List Block)} {depth : Nat} {style : String}
  {place : ListPlace}

theorem hasNoNulls_layoutStyled (h : ∀ b ∈ blocks, LaidOutWithoutNulls o b) (next : Nat) :
    (layoutStyled o next depth style blocks).HasNoNulls := by
  induction blocks generalizing next with
  | nil => exact hasNoNulls_empty
  | cons b blocks ih =>
    rw [List.forall_mem_cons] at h
    obtain ⟨⟨hb, hlayout⟩, hblocks⟩ := h
    rw [layoutStyled_cons]
    refine .append ?_ (ih hblocks _)
    cases b with
    | paragraph xs => exact hasNoNulls_paragraph _ hb
    | heading | list | quote | code | rule | table => exact hlayout next depth

theorem hasNoNulls_layoutItems
    (h : ∀ blocks ∈ items, ∀ b ∈ blocks, LaidOutWithoutNulls o b) (next : Nat) :
    (layoutItems o next depth place items).HasNoNulls := by
  induction items generalizing next with
  | nil => exact hasNoNulls_empty
  | cons blocks items ih =>
    rw [List.forall_mem_cons] at h
    obtain ⟨hblocks, hitems⟩ := h
    have hleading : inlinesHaveNoNulls (leadingInlines blocks) = true := by
      rw [leadingInlines.eq_def]
      split
      · exact (hblocks _ List.mem_cons_self).1
      · rfl
    rw [layoutItems_cons_eq, layoutItem]
    exact ((hasNoNulls_paragraph _ hleading).append (hasNoNulls_layoutStyled
      (fun b hb => hblocks b (followingBlocks_subset blocks hb)) next)).append (ih hitems _)

end

theorem nestedCases_hasNoNulls (o : Options) : NestedCases fun b => blockHasNoNulls b = true →
    ∀ next depth, (layoutBlock o next depth b).HasNoNulls where
  paragraph _ h _ _ := hasNoNulls_paragraph _ h
  heading _ _ h _ _ := hasNoNulls_paragraph _ h
  list _ _ ih h next _ := hasNoNulls_layoutItems (fun blocks hblocks b hb =>
    have hb' := blocksHaveNoNulls_iff.mp (itemsHaveNoNulls_iff.mp h blocks hblocks) b hb
    ⟨hb', ih blocks hblocks b hb hb'⟩) (next + 1)
  quote _ ih h next _ := hasNoNulls_layoutStyled (fun b hb =>
    have hb' := blocksHaveNoNulls_iff.mp h b hb
    ⟨hb', ih b hb hb'⟩) next
  code _ _ h _ _ := List.forall_mem_map.mpr fun line hline =>
    hasNoNulls_item (hasNoNulls_codeLines h line hline)
  rule _ _ _ := List.forall_mem_singleton.mpr (hasNoNulls_item rfl)
  table _ _ _ h _ _ := List.forall_mem_singleton.mpr (avoids_tableItem h)

/-- **The layout of a document without null characters has none.** -/
theorem hasNoNulls_layout {d : Document} (h : blocksHaveNoNulls d.blocks = true) :
    (Document.layout o d).HasNoNulls := by
  have hblocks (blocks : List Block) (next : Nat) (h : ∀ b ∈ blocks, blockHasNoNulls b = true) :
      (layoutBlocks o next blocks).HasNoNulls := by
    induction blocks generalizing next with
    | nil => exact hasNoNulls_empty
    | cons b blocks ih =>
      rw [List.forall_mem_cons] at h
      rw [layoutBlocks]
      exact ((nestedCases_hasNoNulls o).block b h.1 next 0).append (ih _ h.2)
  exact hblocks d.blocks firstList (blocksHaveNoNulls_iff.mp h)

/-! ### Plain texts -/

/-- A null character is a control character. -/
theorem hasNoNulls_of_isPlainText (h : isPlainText s = true) : hasNoNulls s = true :=
  hasNoNulls_iff.mpr fun hmem => absurd (not_isControl_of_mem h hmem) (by decide)

mutual

theorem inlineHasNoNulls_of_plain : ∀ {i : Inline}, hasPlainTexts i = true →
    inlineHasNoNulls i = true
  | .text _, h | .code _, h => hasNoNulls_of_isPlainText h
  | .strong _, h | .emphasis _, h | .underline _, h => inlinesHaveNoNulls_of_plain h
  | .lineBreak, _ => rfl
  | .link href xs, h => by
    rw [hasPlainTexts, Bool.and_eq_true] at h
    rw [inlineHasNoNulls, Bool.and_eq_true]
    exact ⟨hasNoNulls_of_isPlainText h.1, inlinesHaveNoNulls_of_plain h.2⟩
  | .image src alt, h => by
    rw [hasPlainTexts, Bool.and_eq_true] at h
    rw [inlineHasNoNulls, Bool.and_eq_true]
    refine ⟨hasNoNulls_of_isPlainText h.1, ?_⟩
    cases alt with
    | none => rfl
    | some a => exact hasNoNulls_of_isPlainText h.2

theorem inlinesHaveNoNulls_of_plain : ∀ {xs : List Inline}, havePlainTexts xs = true →
    inlinesHaveNoNulls xs = true
  | [], _ => rfl
  | i :: rest, h => by
    rw [havePlainTexts, Bool.and_eq_true] at h
    rw [inlinesHaveNoNulls, Bool.and_eq_true]
    exact ⟨inlineHasNoNulls_of_plain h.1, inlinesHaveNoNulls_of_plain h.2⟩

end

theorem havePlainTexts_of_isPlainInlines {xs : List Inline} (h : isPlainInlines xs = true) :
    havePlainTexts xs = true := by
  match xs, h with
  | [], _ => rfl
  | [.text s], h =>
    rw [havePlainTexts, Bool.and_eq_true]
    exact ⟨h, rfl⟩

theorem blockHasNoNulls_of_isPlainParagraph {b : Block} (h : isPlainParagraph b = true) :
    blockHasNoNulls b = true := by
  obtain ⟨xs, rfl, hxs⟩ := exists_of_isPlainParagraph h
  exact inlinesHaveNoNulls_of_plain (havePlainTexts_of_isPlainInlines hxs)

theorem blocksHaveNoNulls_of_arePlainParagraphs {blocks : List Block}
    (h : arePlainParagraphs blocks = true) : blocksHaveNoNulls blocks = true := by
  rw [arePlainParagraphs, Bool.and_eq_true, List.all_eq_true] at h
  exact blocksHaveNoNulls_iff.mpr fun b hb => blockHasNoNulls_of_isPlainParagraph (h.2 b hb)

theorem blockHasNoNulls_of_isPlainList {levels : Nat} {b : Block} (h : isPlainList levels b = true) :
    blockHasNoNulls b = true := by
  induction levels generalizing b with
  | zero => cases h
  | succ levels ih =>
    obtain ⟨ordered, items, rfl, -, hitems⟩ := exists_of_isPlainList h
    refine itemsHaveNoNulls_iff.mpr fun blocks hblocks => blocksHaveNoNulls_iff.mpr fun b hb => ?_
    obtain ⟨xs, ps, ls, rfl, hxs, hps, hls⟩ := hitems blocks hblocks
    rw [List.mem_cons, List.mem_append] at hb
    obtain rfl | hb | hb := hb
    · exact inlinesHaveNoNulls_of_plain (havePlainTexts_of_isPlainInlines hxs)
    · exact blockHasNoNulls_of_isPlainParagraph (hps b hb)
    · exact ih (hls b hb)

/-- **A block that keeps its form has no null characters.** -/
theorem blockHasNoNulls_of_isPlainBlock {b : Block} (h : isPlainBlock b = true) :
    blockHasNoNulls b = true := by
  cases b with
  | paragraph xs => exact blockHasNoNulls_of_isPlainParagraph h
  | heading level xs =>
    rw [isPlainBlock, Bool.and_eq_true] at h
    exact inlinesHaveNoNulls_of_plain (havePlainTexts_of_isPlainInlines h.2)
  | list ordered items => exact blockHasNoNulls_of_isPlainList h
  | quote blocks => exact blocksHaveNoNulls_of_arePlainParagraphs h
  | code text language =>
    rw [isPlainBlock, isPlainCode, Bool.and_eq_true, Bool.and_eq_true, List.all_eq_true] at h
    exact hasNoNulls_iff.mpr fun hmem => absurd (h.2.1 _ hmem) (by decide)
  | rule => rfl
  | table header rows alignments =>
    obtain ⟨-, columns, -, -, hrows⟩ := exists_of_isPlainTable h
    exact tableHasNoNulls_iff.mpr fun cells hc => itemsHaveNoNulls_iff.mpr fun blocks hb =>
      blocksHaveNoNulls_of_arePlainParagraphs ((hrows cells hc).2 blocks hb)

end Interdoc.Docx

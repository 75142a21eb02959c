import Interdoc.Proofs.Latex.Image

/-!
# The round trip through LaTeX

A document is `Expressible` if it is in normal form, every line of it keeps its form (`FitsLine`),
and its code, headings, items and tables are such as LaTeX has them.  Printing and reading gives an
expressible document back, since `image` leaves it alone (`imageList_eq_self`).

That is decidable, so whether a document comes back can be told without printing it.
-/

namespace Interdoc.Latex

open Inline (tidy OneLineList SolidStart SolidEnd Lined IsNormalList)

/-! ### Expressible documents -/

/-- Inlines that keep their form alone on a line: no string has a line ending, and the line neither
begins nor ends with a blank text. -/
structure FitsLine (inlines : List Inline) : Prop where
  oneLine : OneLineList inlines
  solidStart : SolidStart inlines
  solidEnd : SolidEnd inlines

/-- A cell that keeps its form is one paragraph. -/
def FitsCell : List Block → Prop
  | [.paragraph inlines] => FitsLine inlines
  | _ => False

/-- The rows of a table that keeps its form, none of which is empty. -/
def FitsTable (rows : List (List (List Block))) : Prop :=
  ∀ cells ∈ rows, cells ≠ [] ∧ ∀ blocks ∈ cells, FitsCell blocks

mutual

/-- A block that keeps its form when it is printed. -/
def ExpressibleBlock : Block → Prop
  | .paragraph inlines => inlines ≠ [] ∧ FitsLine inlines
  | .heading level inlines => 1 ≤ level ∧ level ≤ 5 ∧ FitsLine inlines
  | .list _ items => ExpressibleItems items
  | .quote blocks => ExpressibleList blocks
  | .code text language => IsCode text.toList ∧ ∀ l ∈ language, IsLanguage l.toList
  | .rule => True
  | .table header rows alignments => FitsTable (header.toList ++ rows) ∧
      ∃ as ∈ alignments, 1 ≤ as.length ∧
        ∀ cells ∈ header.toList ++ rows, cells.length ≤ as.length

/-- Blocks that keep their form. -/
def ExpressibleList : List Block → Prop
  | [] => True
  | b :: rest => ExpressibleBlock b ∧ ExpressibleList rest

/-- Items that keep their form: an empty paragraph may be the only block of an item. -/
def ExpressibleItems : List (List Block) → Prop
  | [] => True
  | blocks :: rest =>
    (blocks = [Block.emptyParagraph] ∨ ExpressibleList blocks) ∧ ExpressibleItems rest

end

/-- A document that LaTeX can express: it is in normal form, and all its blocks keep their form. -/
structure Expressible (d : Document) : Prop where
  normal : d.normalize = d
  blocks : ExpressibleList d.blocks

instance (inlines : List Inline) : Decidable (FitsLine inlines) :=
  decidable_of_iff (_ ∧ _ ∧ _) ⟨fun h => ⟨h.1, h.2.1, h.2.2⟩, fun h => ⟨h.1, h.2, h.3⟩⟩

instance (blocks : List Block) : Decidable (FitsCell blocks) :=
  match blocks with
  | [.paragraph inlines] => inferInstanceAs (Decidable (FitsLine inlines))
  | [] | .paragraph _ :: _ :: _ | .heading _ _ :: _ | .list _ _ :: _ | .quote _ :: _
  | .code _ _ :: _ | .rule :: _ | .table _ _ _ :: _ => isFalse (by simp [FitsCell])

instance (rows : List (List (List Block))) : Decidable (FitsTable rows) :=
  inferInstanceAs (Decidable (∀ cells ∈ rows, cells ≠ [] ∧ ∀ blocks ∈ cells, FitsCell blocks))

mutual

/-- `ExpressibleBlock` as a decision. -/
def decExpressibleBlock : ∀ b : Block, Decidable (ExpressibleBlock b)
  | .paragraph inlines => inferInstanceAs (Decidable (inlines ≠ [] ∧ FitsLine inlines))
  | .heading level inlines =>
    inferInstanceAs (Decidable (1 ≤ level ∧ level ≤ 5 ∧ FitsLine inlines))
  | .list _ items => decExpressibleItems items
  | .quote blocks => decExpressibleList blocks
  | .code text language =>
    inferInstanceAs (Decidable (IsCode text.toList ∧ ∀ l ∈ language, IsLanguage l.toList))
  | .rule => isTrue trivial
  | .table header rows alignments =>
    inferInstanceAs (Decidable (FitsTable (header.toList ++ rows) ∧
      ∃ as ∈ alignments, 1 ≤ as.length ∧ ∀ cells ∈ header.toList ++ rows,
        cells.length ≤ as.length))

/-- `ExpressibleList` as a decision. -/
def decExpressibleList : ∀ blocks : List Block, Decidable (ExpressibleList blocks)
  | [] => isTrue trivial
  | b :: rest =>
    have := decExpressibleBlock b
    have := decExpressibleList rest
    inferInstanceAs (Decidable (ExpressibleBlock b ∧ ExpressibleList rest))

/-- `ExpressibleItems` as a decision. -/
def decExpressibleItems : ∀ items : List (List Block), Decidable (ExpressibleItems items)
  | [] => isTrue trivial
  | blocks :: rest =>
    have := decExpressibleList blocks
    have := decExpressibleItems rest
    inferInstanceAs (Decidable
      ((blocks = [Block.emptyParagraph] ∨ ExpressibleList blocks) ∧ ExpressibleItems rest))

end

instance (d : Document) : Decidable (Expressible d) :=
  have := decExpressibleList d.blocks
  decidable_of_iff (d.normalize = d ∧ ExpressibleList d.blocks)
    ⟨fun h => ⟨h.1, h.2⟩, fun h => ⟨h.1, h.2⟩⟩

example : ¬ Expressible ⟨[.paragraph []]⟩ := by decide

/-! ### Expressible documents come back -/

theorem FitsCell.exists_paragraph {blocks : List Block} (h : FitsCell blocks) :
    ∃ xs, blocks = [.paragraph xs] ∧ FitsLine xs := by
  match blocks, h with
  | [.paragraph xs], h => exact ⟨xs, rfl, h⟩

theorem tidy_of_fitsLine {xs : List Inline} (h : FitsLine xs)
    (hn : Inline.normalizeList xs = xs) : tidy xs = xs :=
  tidy_eq_self ⟨(Inline.isNormalList_iff xs).mpr hn, h.oneLine⟩ h.solidStart h.solidEnd

/-- A cell that is one paragraph is printed like the paragraph. -/
theorem tidy_cellInlines_paragraph (xs : List Inline) :
    tidy (cellInlines [.paragraph xs]) = tidy xs := by
  rw [cellInlines, cellBlockInlines]
  split
  · -- the paragraph prints nothing, so nothing of it would be left anyway
    next he =>
    have ht : tidy xs = [] := tidy_eq_nil_iff.mpr (by rw [he]; rfl)
    rw [ht, cellInlines]
    rfl
  · have hnil : printInlines (cellInlines []) = [] := rfl
    rw [if_pos hnil]

theorem imageRow_eq_self {cells : List (List Block)} (hne : cells ≠ [])
    (h : ∀ blocks ∈ cells, FitsCell blocks)
    (hn : Block.normalizeItems cells = cells) : imageRow cells = cells := by
  rw [imageRow, if_neg hne]
  clear hne
  induction cells with
  | nil => rfl
  | cons blocks cells ih =>
    rw [List.forall_mem_cons] at h
    obtain ⟨xs, rfl, hx⟩ := h.1.exists_paragraph
    rw [Block.normalizeItems, Block.normalize, Block.normalizeList] at hn
    obtain ⟨hp, hrest⟩ := List.cons.inj hn
    have hxs : Inline.normalizeList xs = xs := Block.paragraph.inj (List.cons.inj hp).1
    rw [List.map_cons, tidy_cellInlines_paragraph, tidy_of_fitsLine hx hxs, ih h.2 hrest]

theorem map_imageRow_eq_self {rows : List (List (List Block))} (h : FitsTable rows)
    (hn : Block.normalizeRows rows = rows) : rows.map imageRow = rows := by
  induction rows with
  | nil => rfl
  | cons cells rows ih =>
    rw [FitsTable, List.forall_mem_cons] at h
    rw [Block.normalizeRows] at hn
    obtain ⟨hc, hrest⟩ := List.cons.inj hn
    rw [List.map_cons, imageRow_eq_self h.1.1 h.1.2 hc, ih h.2 hrest]

theorem imageList_emptyParagraph : imageList [Block.emptyParagraph] = [] := by
  have ht : tidy [] = [] := tidy_eq_nil_iff.mpr rfl
  rw [imageList, Block.emptyParagraph, image, if_pos ht]
  rfl

/-- A table with enough alignments keeps them. -/
theorem imageAlignments_eq_self {header : Option (List (List Block))}
    {rows : List (List (List Block))} {as : List Alignment} (h : 1 ≤ as.length)
    (hr : ∀ cells ∈ header.toList ++ rows, cells.length ≤ as.length) :
    imageAlignments as (columnCount header rows) = as := by
  have hc : columnCount header rows ≤ as.length := columnCount_le_iff.mpr ⟨h, hr⟩
  rw [imageAlignments, Nat.sub_eq_zero_of_le hc, List.replicate_zero, List.append_nil]

mutual

theorem image_eq_self : ∀ {b : Block}, ExpressibleBlock b → b.normalize = b → image b = [b]
  | .paragraph xs, h, hn => by
    rw [Block.normalize] at hn
    have ht := tidy_of_fitsLine h.2 (Block.paragraph.inj hn)
    rw [image, ht, if_neg h.1]
  | .heading level xs, h, hn => by
    rw [Block.normalize] at hn
    have hl : headingLevel level = level := by
      have h₁ := h.1
      have h₂ := h.2.1
      rw [headingLevel]
      omega
    rw [image, tidy_of_fitsLine h.2.2 (Block.heading.inj hn).2, hl]
  | .list ordered items, h, hn => by
    rw [Block.normalize] at hn
    rw [image, imageItems_eq_self h (Block.list.inj hn).2]
  | .quote blocks, h, hn => by
    rw [Block.normalize] at hn
    rw [image, imageList_eq_self h (Block.quote.inj hn)]
  | .code _ _, _, _ => rfl
  | .rule, _, _ => rfl
  | .table none rows alignments, ⟨hf, as, ha, hl, hr⟩, hn => by
    rw [Block.normalize] at hn
    have hrows : rows.map imageRow = rows := map_imageRow_eq_self hf (Block.table.inj hn).2.1
    rw [image, Option.map_none, hrows, ha, Option.getD_some, imageAlignments_eq_self hl hr]
  | .table (some cells) rows alignments, ⟨hf, as, ha, hl, hr⟩, hn => by
    rw [Block.normalize] at hn
    obtain ⟨hh, hrows, -⟩ := Block.table.inj hn
    have hfits : FitsTable (cells :: rows) := hf
    -- the header is one more row
    have hall : (cells :: rows).map imageRow = cells :: rows := by
      apply map_imageRow_eq_self hfits
      rw [Block.normalizeRows, hrows, Option.some.inj hh]
    obtain ⟨hc, hrest⟩ := List.cons.inj hall
    rw [image, Option.map_some, hc, hrest, ha, Option.getD_some, imageAlignments_eq_self hl hr]

/-- **Expressible blocks are their own image.** -/
theorem imageList_eq_self : ∀ {blocks : List Block}, ExpressibleList blocks →
    Block.normalizeList blocks = blocks → imageList blocks = blocks
  | [], _, _ => rfl
  | b :: rest, h, hn => by
    rw [Block.normalizeList] at hn
    obtain ⟨hb, hrest⟩ := List.cons.inj hn
    rw [imageList, image_eq_self h.1 hb, imageList_eq_self h.2 hrest, List.singleton_append]

theorem imageItems_eq_self : ∀ {items : List (List Block)}, ExpressibleItems items →
    Block.normalizeItems items = items → imageItems items = items
  | [], _, _ => rfl
  | blocks :: rest, h, hn => by
    rw [Block.normalizeItems_cons] at hn
    obtain ⟨hb, hrest⟩ := List.cons.inj hn
    rw [imageItems, imageItems_eq_self h.2 hrest]
    congr 1
    rcases h.1 with rfl | hblocks
    · rw [imageList_emptyParagraph, if_pos rfl]
    · by_cases he : Block.normalizeList blocks = []
      · -- the normal form of an empty item is not empty
        rw [if_pos he] at hb
        rw [← hb] at he
        exact absurd he (List.cons_ne_nil _ _)
      · rw [if_neg he] at hb
        rw [imageList_eq_self hblocks hb, if_neg (hb ▸ he)]

end

mutual

theorem printable_of_expressible : ∀ {b : Block}, ExpressibleBlock b → Printable b
  | .list _ _, h => printableItems_of_expressible h
  | .quote _, h => printableList_of_expressible h
  | .code _ _, h => h
  | .paragraph _, _ | .heading _ _, _ | .rule, _ | .table _ _ _, _ => trivial

theorem printableList_of_expressible : ∀ {blocks : List Block},
    ExpressibleList blocks → PrintableList blocks
  | [], _ => trivial
  | _ :: _, h => ⟨printable_of_expressible h.1, printableList_of_expressible h.2⟩

theorem printableItems_of_expressible : ∀ {items : List (List Block)},
    ExpressibleItems items → PrintableItems items
  | [], _ => trivial
  | _ :: _, ⟨.inl h, hrest⟩ => ⟨h ▸ ⟨trivial, trivial⟩, printableItems_of_expressible hrest⟩
  | _ :: _, ⟨.inr h, hrest⟩ => ⟨printableList_of_expressible h, printableItems_of_expressible hrest⟩

end

theorem Expressible.imageList_eq {d : Document} (h : Expressible d) :
    imageList d.blocks = d.blocks := by
  have hn : Block.normalizeList d.blocks = d.blocks := congrArg Document.blocks h.normal
  exact imageList_eq_self h.blocks hn

/-- **The round trip through LaTeX**: an expressible document is read back from what is printed of
it, with or without an article around it. -/
theorem parse_print_eq_self (options : Options) {d : Document} (h : Expressible d) :
    parse (print options d) = d := by
  rw [parse_print options (printableList_of_expressible h.blocks), h.imageList_eq]

/-- A document whose list holds a quote, code and an empty item, with markup in its texts. -/
def nestedDocument : Document :=
  ⟨[.heading 2 [.text "A & B"],
    .list true
      [[.paragraph [.text "x_1", .strong [.text "\x7b"]], .quote [.rule, .code "a\nb" (some "c")]],
        [.emptyParagraph]],
    .table (some [[.paragraph [.text "k"]], [.emptyParagraph]]) [[[.paragraph [.lineBreak]]]]
      (some [.left, .right])]⟩

/-- The nested document comes back out of an article. -/
theorem parse_print_nestedDocument : Expressible nestedDocument ∧
    parse (print ⟨true⟩ nestedDocument) = nestedDocument := by
  have h : Expressible nestedDocument := by decide
  exact ⟨h, parse_print_eq_self ⟨true⟩ h⟩

end Interdoc.Latex

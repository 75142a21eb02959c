import Interdoc.Docx.Rendering
import Interdoc.Proofs.Docx.Expressible
import Interdoc.Proofs.Docx.Items
import Interdoc.Proofs.Document.Normal
import Interdoc.Proofs.Html.Reads

/-!
# The HTML of plain blocks

`htmlOf` is the HTML that a block of an expressible document is rendered as, and each such block is
read back from it (`reads_htmlOf`).  For a table it is what its layout is read as, since everything
that matters to a table is in the table.
-/

namespace Interdoc.Docx

open Interdoc (Inline Block Alignment)
open Html (Piece Reads ReadsInlines ReadsItems ReadsCells ReadsRows)
open Xml (unbroken)

/-! ### Texts -/

section

variable {s : String} (h : isPlainText s = true)

include h

theorem not_isControl_of_mem {c : Char} (hc : c ∈ s.toList) : isControl c = false := by
  rw [isPlainText, List.all_eq_true] at h
  simpa using h c hc

theorem onOneLine_eq_self : onOneLine s = s := by
  have hmap : s.toList.map (fun c => if c = '\n' then ' ' else c) = s.toList := by
    refine (List.map_congr_left fun c hc => ?_).trans (List.map_id' _)
    rw [if_neg]
    rintro rfl
    exact absurd (not_isControl_of_mem h hc) (by decide)
  rw [onOneLine, hmap, String.ofList_toList]

theorem unbroken_of_isPlainText : unbroken s = s := by
  refine Xml.unbroken_eq_self fun c hc => ?_
  have hcontrol := not_isControl_of_mem h hc
  rw [Xml.isInLine, Bool.and_eq_true, bne_iff_ne, bne_iff_ne]
  constructor <;> rintro rfl <;> exact absurd hcontrol (by decide)

end

/-- The pieces of plain inlines. -/
def inlinePieces : List Inline → List Piece
  | [.text s] => [.text s]
  | _ => []

theorem content_read (p : WrittenParagraph) : p.read.content = renderSegments p.segments := rfl

/-- A text without any properties is read as the text alone. -/
theorem renderSegments_text (s : String) :
    renderSegments [⟨({} : RunProperties).format false, .text s⟩] = [.text s] := by
  have hformat : ({} : RunProperties).format false = ⟨false, false, false, false⟩ := by decide
  rw [hformat]
  rfl

/-- A paragraph of plain inlines is read as their pieces. -/
theorem plain_spec (o : Options) {xs : List Inline} (h : isPlainInlines xs = true)
    {p : WrittenParagraph} (hp : p.parts = partsAmong o {} xs) :
    p.IsPlain ∧ p.read.content = inlinePieces xs := by
  match xs, h with
  | [], _ =>
    refine ⟨⟨[], hp, by simp⟩, ?_⟩
    rw [content_read, WrittenParagraph.segments, hp]
    rfl
  | [.text s], h =>
    have hparts : p.parts = [.run ⟨{}, .text s⟩] := by
      rw [hp, partsAmong, partsOf, onOneLine_eq_self h]
      rfl
    refine ⟨⟨[⟨{}, .text s⟩], hparts, ?_⟩, ?_⟩
    · rintro r hr
      rw [List.mem_singleton.mp hr]
      rintro c ⟨⟩
    · have hsegments : p.segments = [⟨({} : RunProperties).format false, .text (unbroken s)⟩] := by
        rw [WrittenParagraph.segments, hparts]
        rfl
      rw [content_read, hsegments, renderSegments_text, unbroken_of_isPlainText h]
      rfl

theorem readsInlines_plain {xs : List Inline} (h : isPlainInlines xs = true)
    (hn : Inline.IsNormalList xs) : ReadsInlines (inlinePieces xs) xs := by
  match xs, h with
  | [], _ => exact Html.readsInlines_nil
  | [.text s], _ =>
    rw [Inline.IsNormalList, Inline.IsNormal] at hn
    exact Html.readsInlines_text hn.1

/-! ### Blocks -/

/-- The HTML that the layout of a table is read as. -/
def LayoutItem.tableHtml : LayoutItem → List Piece
  | .paragraph _ => []
  | .table rows => readTable rows

mutual

/-- The HTML that a block is rendered as. -/
def htmlOf (o : Options) : Block → List Piece
  | .paragraph inlines => Html.element "p" (inlinePieces inlines)
  | .heading level inlines => Html.element ("h" ++ toString level) (inlinePieces inlines)
  | .list ordered items => Html.element (Context.listTag ordered) (htmlOfItems o items)
  | .quote blocks => Html.element "blockquote" (htmlOfAll o blocks)
  | .code text _ => Html.element "pre" (Html.element "code" [.text text])
  | .rule => [.void "hr" []]
  | .table header rows alignments => (tableItem o header rows alignments).tableHtml

/-- The HTML that blocks are rendered as. -/
def htmlOfAll (o : Options) : List Block → List Piece
  | [] => []
  | b :: rest => htmlOf o b ++ htmlOfAll o rest

/-- The HTML that the items of a list are rendered as. -/
def htmlOfItems (o : Options) : List (List Block) → List Piece
  | [] => []
  | blocks :: rest => Html.element "li" (htmlOfAll o blocks) ++ htmlOfItems o rest

end

section

variable {o : Options}

theorem htmlOfAll_eq_flatMap (blocks : List Block) :
    htmlOfAll o blocks = blocks.flatMap (htmlOf o) := by
  induction blocks with
  | nil => rfl
  | cons b blocks ih => rw [htmlOfAll, ih, List.flatMap_cons]

theorem reads_htmlOfAll {blocks : List Block} (h : ∀ b ∈ blocks, Reads (htmlOf o b) [b]) :
    Reads (htmlOfAll o blocks) blocks := by
  induction blocks with
  | nil => exact Html.reads_nil
  | cons b blocks ih =>
    rw [List.forall_mem_cons] at h
    exact Html.reads_append h.1 (ih h.2)

theorem readsItems_htmlOfItems {items : List (List Block)}
    (h : ∀ blocks ∈ items, ∀ b ∈ blocks, Reads (htmlOf o b) [b]) :
    ReadsItems (htmlOfItems o items) items := by
  induction items with
  | nil => exact Html.readsItems_nil
  | cons blocks items ih =>
    rw [List.forall_mem_cons] at h
    exact Html.readsItems_append (Html.readsItems_item (reads_htmlOfAll h.1)) (ih h.2)

theorem reads_plainParagraph {b : Block} (h : isPlainParagraph b = true) (hn : b.IsNormal) :
    Reads (htmlOf o b) [b] := by
  obtain ⟨xs, rfl, hxs⟩ := exists_of_isPlainParagraph h
  exact Html.reads_paragraph (readsInlines_plain hxs hn)

theorem reads_plainParagraphs {blocks : List Block} (h : arePlainParagraphs blocks = true)
    (hn : Block.IsNormalList blocks) : Reads (htmlOfAll o blocks) blocks := by
  rw [arePlainParagraphs, Bool.and_eq_true, List.all_eq_true] at h
  exact reads_htmlOfAll fun b hb =>
    reads_plainParagraph (h.2 b hb) (Block.isNormalList_iff.mp hn b hb)

theorem reads_plainList {levels : Nat} {b : Block} (h : isPlainList levels b = true)
    (hn : b.IsNormal) : Reads (htmlOf o b) [b] := by
  induction levels generalizing b with
  | zero => cases h
  | succ levels ih =>
    obtain ⟨ordered, items, rfl, -, hitems⟩ := exists_of_isPlainList h
    have htag : Context.listTag ordered = "ul" ∨ Context.listTag ordered = "ol" := by
      cases ordered <;> decide
    have hordered : (Context.listTag ordered == "ol") = ordered := by cases ordered <;> decide
    -- the lists in the items are one level less deep
    have hreads : ReadsItems (htmlOfItems o items) items := by
      refine readsItems_htmlOfItems fun blocks hblocks b hb => ?_
      have hb' : b.IsNormal :=
        Block.isNormalList_iff.mp (Block.isNormalItems_iff.mp hn blocks hblocks).2 b hb
      obtain ⟨xs, ps, ls, rfl, hxs, hps, hls⟩ := hitems blocks hblocks
      rw [List.mem_cons, List.mem_append] at hb
      obtain rfl | hb | hb := hb
      · exact reads_plainParagraph hxs hb'
      · exact reads_plainParagraph (hps b hb) hb'
      · exact ih (hls b hb) hb'
    have := Html.reads_list htag hreads
    rwa [hordered] at this

end

end Interdoc.Docx

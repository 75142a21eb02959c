import Interdoc.Proofs.Docx.AlikeBodies
import Interdoc.Proofs.Docx.ListRendering

/-!
# Paragraphs of several texts

A paragraph that is not in normal form may hold many texts, some of them empty.  Each is written as
a run of its own, and the runs are rendered one after the other without any tags, so that the
paragraph means the same as that of its normal form (`alike_texts`).

So it can be exchanged for its normal form wherever it stands (`alike_paragraph`).
-/

namespace Interdoc.Docx

open Interdoc (Inline Block Alignment)
open Html (Piece)

variable {o : Options}

/-! ### Texts -/

/-- Whether inlines are nothing but plain texts, any number of them. -/
def arePlainTexts (xs : List Inline) : Bool :=
  xs.all fun
    | .text s => isPlainText s
    | _ => false

/-- Whether a block is a paragraph of plain texts. -/
def isTextParagraph : Block → Bool
  | .paragraph xs => arePlainTexts xs
  | _ => false

theorem arePlainTexts_cons {x : Inline} {xs : List Inline} (h : arePlainTexts (x :: xs) = true) :
    ∃ s, x = .text s ∧ isPlainText s = true ∧ arePlainTexts xs = true := by
  rw [arePlainTexts, List.all_cons, Bool.and_eq_true] at h
  obtain ⟨hx, hxs⟩ := h
  cases x with
  | text s => exact ⟨s, rfl, hx, hxs⟩
  | strong | emphasis | underline | code | lineBreak | link | image => cases hx

theorem exists_of_isTextParagraph {b : Block} (h : isTextParagraph b = true) :
    ∃ xs, b = .paragraph xs ∧ arePlainTexts xs = true := by
  cases b with
  | paragraph xs => exact ⟨xs, rfl, h⟩
  | heading | list | quote | code | rule | table => cases h

/-- A text in front of plain inlines in normal form. -/
theorem isPlainInlines_cons {s : String} (hs : isPlainText s = true) {xs : List Inline}
    (h : isPlainInlines xs = true) : isPlainInlines (Inline.cons (.text s) xs) = true := by
  by_cases hempty : s = ""
  · rwa [hempty, Inline.cons_empty]
  match xs, h with
  | [], _ =>
    rw [Inline.cons_text_of_ne hempty (by simp)]
    exact hs
  | [.text t], ht =>
    rw [Inline.cons_text_text hempty]
    rw [isPlainInlines, isPlainText, String.toList_append, List.all_append, Bool.and_eq_true]
    exact ⟨hs, ht⟩

/-- The normal form of plain texts is one plain text, or nothing. -/
theorem isPlainInlines_normalizeList {xs : List Inline} (h : arePlainTexts xs = true) :
    isPlainInlines (Inline.normalizeList xs) = true := by
  induction xs with
  | nil => rfl
  | cons x xs ih =>
    obtain ⟨s, rfl, hs, hxs⟩ := arePlainTexts_cons h
    rw [Inline.normalizeList_cons]
    exact isPlainInlines_cons hs (ih hxs)

theorem isPlainParagraph_normalize {b : Block} (h : isTextParagraph b = true) :
    isPlainParagraph b.normalize = true := by
  obtain ⟨xs, rfl, hxs⟩ := exists_of_isTextParagraph h
  rw [Block.normalize]
  exact isPlainInlines_normalizeList hxs

/-! ### Runs -/

/-- The run of a text without any formatting. -/
def textRun (s : String) : WrittenRun :=
  ⟨{}, .text s⟩

/-- Texts are written as runs of their own. -/
theorem partsAmong_texts {xs : List Inline} (h : arePlainTexts xs = true) :
    ∃ ss : List String, xs = ss.map .text ∧ (∀ s ∈ ss, isPlainText s = true) ∧
      partsAmong o {} xs = ss.map fun s => .run (textRun s) := by
  induction xs with
  | nil => exact ⟨[], rfl, List.forall_mem_nil _, rfl⟩
  | cons x xs ih =>
    obtain ⟨s, rfl, hs, hxs⟩ := arePlainTexts_cons h
    obtain ⟨ss, rfl, hss, hparts⟩ := ih hxs
    refine ⟨s :: ss, rfl, List.forall_mem_cons.mpr ⟨hs, hss⟩, ?_⟩
    rw [partsAmong, partsOf, onOneLine_eq_self hs, hparts]
    rfl

/-- Segments without any formatting are rendered without tags. -/
theorem renderSegments_texts (ss : List String) :
    renderSegments (ss.map fun s => (textRun s).segment false) =
      ss.map fun s => .text (Xml.unbroken s) := by
  rw [renderSegments]
  induction ss with
  | nil => rfl
  | cons s ss ih =>
    have htags : ((textRun s).segment false).format.tags = [] :=
      (by decide : (({} : RunProperties).format false).tags = [])
    rw [List.map_cons, renderSegmentsFrom, htags, ih]
    rfl

/-- A text in front of pieces means the same as in front of the inlines that they are for. -/
theorem alike_cons (s : String) {xs : List Inline} (h : isPlainInlines xs = true) :
    Html.Alike (.text s :: inlinePieces xs) (inlinePieces (Inline.cons (.text s) xs)) := by
  by_cases hempty : s = ""
  · rw [hempty, Inline.cons_empty]
    exact Html.alike_empty.append (.refl _)
  match xs, h with
  | [], _ =>
    rw [Inline.cons_text_of_ne hempty (by simp)]
    exact .refl _
  | [.text t], _ =>
    rw [Inline.cons_text_text hempty]
    exact Html.alike_texts s t

theorem alike_normalizeList {ss : List String} (h : ∀ s ∈ ss, isPlainText s = true) :
    Html.Alike (ss.map .text) (inlinePieces (Inline.normalizeList (ss.map .text))) := by
  induction ss with
  | nil => exact .refl _
  | cons s ss ih =>
    rw [List.forall_mem_cons] at h
    have htexts : arePlainTexts (ss.map .text) = true := by
      rw [arePlainTexts, List.all_map, List.all_eq_true]
      exact h.2
    rw [List.map_cons, List.map_cons, Inline.normalizeList_cons]
    exact ((ih h.2).cons _).trans (alike_cons s (isPlainInlines_normalizeList htexts))

/-- **A paragraph of texts is read as its normal form.** -/
theorem text_spec {xs : List Inline} (h : arePlainTexts xs = true) {q : WrittenParagraph}
    (hq : q.parts = partsAmong o {} xs) :
    q.IsPlain ∧ Html.Alike q.read.content (inlinePieces (Inline.normalizeList xs)) := by
  obtain ⟨ss, rfl, hss, hparts⟩ := partsAmong_texts (o := o) h
  rw [hparts] at hq
  refine ⟨⟨ss.map textRun, by rw [hq, List.map_map]; rfl, ?_⟩, ?_⟩
  · refine List.forall_mem_map.mpr fun s _ => ?_
    rintro c ⟨⟩
  · have hsegments : q.segments = ss.map fun s => (textRun s).segment false := by
      rw [WrittenParagraph.segments, hq, List.flatMap_map]
      simp only [ParagraphPart.runs, ← List.map_eq_flatMap, List.map_map]
      rfl
    have hunbroken : (ss.map fun s => Piece.text (Xml.unbroken s)) = ss.map .text :=
      List.map_congr_left fun s hs => by rw [unbroken_of_isPlainText (hss s hs)]
    rw [content_read, hsegments, renderSegments_texts, hunbroken]
    exact alike_normalizeList hss

/-! ### Paragraphs -/

/-- Two written paragraphs of the same style, place and alignment, with content that means the same.
-/
structure WrittenParagraph.Alike (q r : WrittenParagraph) : Prop where
  style : q.style = r.style
  place : q.place = r.place
  alignment : q.alignment = r.alignment
  content : Html.Alike q.read.content r.read.content

/-- What is no code is read alike. -/
theorem WrittenParagraph.Alike.read {q r : WrittenParagraph} (h : q.Alike r)
    (hcode : q.read.kind ≠ .code) : q.read.Alike r.read where
  kind := by rw [kind_read, kind_read, h.style]
  numbering := by rw [WrittenParagraph.read, WrittenParagraph.read, h.place]
  content := h.content
  codeLine hkind := absurd hkind hcode

/-- **A paragraph of texts is written alike to its normal form.** -/
theorem alike_paragraph (base : WrittenParagraph) {xs : List Inline}
    (h : arePlainTexts xs = true) :
    WrittenParagraph.Alike { base with parts := partsAmong o {} xs }
      { base with parts := partsAmong o {} (Inline.normalizeList xs) } := by
  let r : WrittenParagraph := { base with parts := partsAmong o {} (Inline.normalizeList xs) }
  have hr : r.read.content = inlinePieces (Inline.normalizeList xs) :=
    (plain_spec o (isPlainInlines_normalizeList h) rfl).2
  refine ⟨rfl, rfl, rfl, ?_⟩
  rw [hr]
  exact (text_spec h rfl).2

end Interdoc.Docx

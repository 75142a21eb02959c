import Interdoc.Proofs.Docx.Escape
import Interdoc.Proofs.Docx.Emission
import Interdoc.Proofs.Html.PlainText

/-!
# Shown text

What a rendering shows is the text of its pieces.  Blanks are not compared, since a line break shows
none and lines of code are joined by line feeds.

Rendering neither loses nor moves text.  Segments show their pieces, in links or outside
(`shown_contentOf`).  In a context there may be text that is held back; a step shows that first and
then the text of its item, or holds this back too (`shown_step`).  So a run through any items shows
their texts one after the other (`shown_render`).
-/

namespace Interdoc

namespace Text

/-- A text without its blanks. -/
def withoutBlanks (s : List Char) : List Char :=
  s.filter fun c => !isBlankChar c

theorem withoutBlanks_append (s t : List Char) :
    withoutBlanks (s ++ t) = withoutBlanks s ++ withoutBlanks t :=
  List.filter_append ..

theorem withoutBlanks_eq_nil_iff {s : List Char} : withoutBlanks s = [] ↔ isBlank s = true := by
  rw [withoutBlanks, List.filter_eq_nil_iff, isBlank_iff]
  simp

theorem withoutBlanks_unlines (ls : List (List Char)) :
    withoutBlanks (unlines ls) = ls.flatMap withoutBlanks := by
  rw [unlines]
  induction ls with
  | nil => rfl
  | cons l ls ih =>
    cases ls with
    | nil => simp [join]
    | cons l' ls =>
      have hsep : withoutBlanks ['\n'] = [] := withoutBlanks_eq_nil_iff.mpr (by decide)
      rw [join, withoutBlanks_append, withoutBlanks_append, ih, hsep, List.append_nil]
      · rfl
      · exact List.cons_ne_nil l' ls

end Text

namespace Docx

open Html (Piece textOf textOf_append)
open Text (withoutBlanks)

/-! ### Pieces -/

/-- What pieces show, apart from blanks. -/
def shown (pieces : List Piece) : List Char :=
  withoutBlanks (textOf pieces)

variable {ps qs : List Piece} {tag : String} {attributes : List (String × String)}

@[simp]
theorem shown_nil : shown [] = [] := rfl

@[simp]
theorem shown_append (ps qs : List Piece) : shown (ps ++ qs) = shown ps ++ shown qs := by
  rw [shown, textOf_append, Text.withoutBlanks_append]
  rfl

theorem shown_cons (piece : Piece) (ps : List Piece) :
    shown (piece :: ps) = withoutBlanks piece.ownText ++ shown ps := by
  rw [shown, textOf, List.flatMap_cons, Text.withoutBlanks_append]
  rfl

@[simp]
theorem shown_start : shown (.start tag attributes :: ps) = shown ps := rfl

@[simp]
theorem shown_finish : shown (.finish tag :: ps) = shown ps := rfl

@[simp]
theorem shown_void : shown (.void tag attributes :: ps) = shown ps := rfl

@[simp]
theorem shown_text (s : String) : shown (.text s :: ps) = withoutBlanks s.toList ++ shown ps :=
  shown_cons (.text s) ps

theorem shown_flatMap {ι : Type} (f : ι → List Piece) (is : List ι) :
    shown (is.flatMap f) = is.flatMap fun i => shown (f i) := by
  induction is with
  | nil => rfl
  | cons i is ih => rw [List.flatMap_cons, shown_append, ih, List.flatMap_cons]

@[simp]
theorem shown_element : shown (Html.element tag ps) = shown ps := by
  simp [Html.element]

/-! ### Segments -/

@[simp]
theorem shown_closeTags (tags : List String) : shown (closeTags tags) = [] := by
  rw [closeTags]
  induction tags.reverse with
  | nil => rfl
  | cons tag tags ih => exact ih

@[simp]
theorem shown_openTags (tags : List String) : shown (openTags tags) = [] := by
  induction tags with
  | nil => rfl
  | cons tag tags ih => exact ih

theorem shown_renderSegmentsFrom (opened : List String) (segments : List Segment) :
    shown (renderSegmentsFrom opened segments) = shown (segments.map Segment.piece) := by
  induction segments generalizing opened with
  | nil => exact shown_closeTags opened
  | cons s segments ih =>
    rw [renderSegmentsFrom, shown_append, shown_append, shown_closeTags, shown_openTags,
      shown_cons, ih, List.map_cons, shown_cons]
    rfl

theorem shown_renderSegments (segments : List Segment) :
    shown (renderSegments segments) = shown (segments.map Segment.piece) :=
  shown_renderSegmentsFrom [] segments

variable {p : Package}

mutual

theorem pieces_segmentsOf (inLink : Bool) : ∀ node : Xml.Node,
    (segmentsOf p inLink node).map Segment.piece = (segmentsOf p false node).map Segment.piece
  | .text _ => rfl
  | .element name attributes children => by
    rw [segmentsOf, segmentsOf]
    split
    · rw [runSegments, runSegments, List.map_map, List.map_map]
      rfl
    · split
      · rfl
      · exact pieces_segmentsAmong inLink children

/-- Whether runs stand in a link makes no difference to their pieces. -/
theorem pieces_segmentsAmong (inLink : Bool) : ∀ nodes : List Xml.Node,
    (segmentsAmong p inLink nodes).map Segment.piece =
      (segmentsAmong p false nodes).map Segment.piece
  | [] => rfl
  | node :: rest => by
    rw [segmentsAmong, segmentsAmong, List.map_append, List.map_append,
      pieces_segmentsOf inLink node, pieces_segmentsAmong inLink rest]

end

/-- The pieces of all runs in nodes. -/
def runPieces (p : Package) (nodes : List Xml.Node) : List Piece :=
  (segmentsAmong p false nodes).map Segment.piece

theorem shown_contentFrom (pending : List Segment) (nodes : List Xml.Node) :
    shown (contentFrom p pending nodes) =
      shown (pending.map Segment.piece) ++ shown (runPieces p nodes) := by
  induction nodes generalizing pending with
  | nil => rw [contentFrom, shown_renderSegments]; exact (List.append_nil _).symm
  | cons node rest ih =>
    have hcons : runPieces p (node :: rest) =
        (segmentsOf p false node).map Segment.piece ++ runPieces p rest := List.map_append
    rw [contentFrom, hcons]
    split
    · next hlink =>
      -- a hyperlink is one of the wrappers whose runs are the segments
      have hruns : (segmentsOf p false node).map Segment.piece =
          (segmentsAmong p true node.children).map Segment.piece := by
        cases node with
        | text s => cases hlink
        | element name attributes children =>
          obtain rfl : name = "hyperlink" := by simpa [Xml.Node.isNamed] using hlink
          exact (pieces_segmentsAmong true children).symm
      rw [hruns]
      simp [shown_renderSegments, ih]
    · rw [ih, List.map_append]
      simp

/-- **The content of a paragraph** shows the pieces of its runs. -/
theorem shown_contentOf (paragraph : Xml.Node) :
    shown (contentOf p paragraph) = shown (runPieces p paragraph.children) := by
  rw [contentOf, shown_contentFrom]
  rfl

/-- Texts and line breaks are the parts of a line of code. -/
theorem exists_parts {pieces : List Piece}
    (h : ∀ piece ∈ pieces, (∃ s, piece = .text s) ∨ piece = .void "br" []) :
    ∃ parts : List CodePart, pieces = parts.map CodePart.piece := by
  induction pieces with
  | nil => exact ⟨[], rfl⟩
  | cons piece pieces ih =>
    rw [List.forall_mem_cons] at h
    obtain ⟨parts, rfl⟩ := ih h.2
    rcases h.1 with ⟨s, rfl⟩ | rfl
    · exact ⟨.text s :: parts, rfl⟩
    · exact ⟨.lineBreak :: parts, rfl⟩

theorem withoutBlanks_plain (parts : List CodePart) :
    withoutBlanks (parts.flatMap CodePart.plain) = shown (parts.map CodePart.piece) := by
  induction parts with
  | nil => rfl
  | cons part parts ih =>
    rw [List.flatMap_cons, Text.withoutBlanks_append, ih, List.map_cons]
    cases part with
    | text s => exact (shown_text s).symm
    | lineBreak => exact shown_void.symm

/-- **A line of code** has the text of its pieces, if these are texts and line breaks. -/
theorem withoutBlanks_unescapeCode {pieces : List Piece}
    (h : ∀ piece ∈ pieces, (∃ s, piece = .text s) ∨ piece = .void "br" []) :
    withoutBlanks (unescapeCode (Html.render pieces)) = shown pieces := by
  obtain ⟨parts, rfl⟩ := exists_parts h
  rw [render_pieces, unescapeCode_escaped, withoutBlanks_plain]

/-! ### Contexts -/

/-- The text of an item.  A rule shows nothing, whatever its paragraph holds. -/
def BodyItem.shown : BodyItem → List Char
  | .table pieces => Docx.shown pieces
  | .paragraph q =>
    match q.numbering?, q.kind with
    | none, .code => withoutBlanks q.codeLine
    | none, .rule => []
    | _, _ => Docx.shown q.content

namespace Context

@[simp]
theorem shown_closeList (frame : ListFrame) : shown (closeList frame) = [] := rfl

@[simp]
theorem shown_closeLists (c : Context) : shown c.closeLists = [] := by
  rw [closeLists, shown_flatMap, List.flatMap_eq_nil_iff]
  exact fun frame _ => shown_closeList frame

@[simp]
theorem shown_codePieces (lines : List (List Char)) :
    shown (codePieces lines) = lines.flatMap withoutBlanks := by
  rw [codePieces]
  split
  · next h => rw [List.isEmpty_iff.mp h]; rfl
  · simp [Text.withoutBlanks_unlines]

@[simp]
theorem shown_quotePieces (quotes : List (List Piece)) :
    shown (quotePieces quotes) = quotes.flatMap shown := by
  rw [quotePieces]
  split
  · next h => rw [List.isEmpty_iff.mp h]; rfl
  · simp [shown_flatMap]

theorem shown_closeFor (numId : String) (level : Nat) (frames : List ListFrame) :
    shown (closeFor numId level frames).1 = [] := by
  induction frames with
  | nil => rfl
  | cons frame outer ih =>
    rw [closeFor]
    split
    · exact ih
    · rfl

theorem shown_heldBack (c : Context) :
    shown c.heldBack = c.codeLines.flatMap withoutBlanks ++ c.quotes.flatMap shown := by
  rw [heldBack, shown_append, shown_codePieces, shown_quotePieces]

theorem shown_simplePieces {kind : ParagraphKind} (h : kind ≠ .rule) (content : List Piece) :
    shown (simplePieces kind content) = shown content := by
  unfold simplePieces
  split
  · exact shown_element
  · exact absurd rfl h
  · exact shown_element

/-- A block that stands on its own leaves nothing held back. -/
theorem shown_standalone (c : Context) (pieces : List Piece) :
    shown (c.standalone pieces).1 ++ shown (c.standalone pieces).2.heldBack =
      shown c.heldBack ++ shown pieces := by
  simp [standalone, shown_heldBack ({} : Context)]

theorem shown_listItem (c : Context) (numId level : String) (content : List Piece) :
    shown (c.listItem p numId level content).1 ++
        shown (c.listItem p numId level content).2.heldBack =
      shown c.heldBack ++ shown content := by
  rw [listItem]
  dsimp only
  split <;> simp [shown_heldBack, shown_closeFor]

/-- A line of code waits behind those before it, and ends the quotes that wait. -/
theorem shown_codeLine (c : Context) (line : List Char) :
    shown (c.codeLine line).1 ++ shown (c.codeLine line).2.heldBack =
      shown c.heldBack ++ withoutBlanks line := by
  rw [codeLine]
  split
  · next h => simp [shown_heldBack, List.isEmpty_iff.mp h]
  · simp [shown_heldBack]

theorem shown_quote (c : Context) (content : List Piece) :
    shown (c.quote content).1 ++ shown (c.quote content).2.heldBack =
      shown c.heldBack ++ shown content := by
  rw [quote]
  split
  · next h => simp [shown_heldBack, List.isEmpty_iff.mp h]
  · simp [shown_heldBack]

theorem shown_unnumbered (c : Context) {q : Paragraph} (h : q.numbering? = none) :
    shown (c.unnumbered q).1 ++ shown (c.unnumbered q).2.heldBack =
      shown c.heldBack ++ BodyItem.shown (.paragraph q) := by
  rw [unnumbered, BodyItem.shown, h]
  cases q.kind with
  | code => exact shown_codeLine c q.codeLine
  | quote => exact shown_quote c q.content
  | continuation =>
    dsimp only
    split
    · exact (shown_standalone c _).trans (by rw [shown_element])
    · simp [shown_heldBack, released]
  | rule => exact shown_standalone c _
  | normal => exact (shown_standalone c _).trans (by rw [shown_simplePieces (by simp)])
  | heading level => exact (shown_standalone c _).trans (by rw [shown_simplePieces (by simp)])

/-- **A step** shows what is held back and then the text of its item, or holds that back. -/
theorem shown_step (c : Context) (item : BodyItem) :
    shown (c.step p item).1 ++ shown (c.step p item).2.heldBack =
      shown c.heldBack ++ item.shown := by
  cases item with
  | table pieces => exact shown_standalone c pieces
  | paragraph q =>
    cases hnumbering : q.numbering? with
    | none => rw [step, hnumbering]; exact shown_unnumbered c hnumbering
    | some place =>
      rw [step, hnumbering, BodyItem.shown, hnumbering]
      exact shown_listItem c place.1 place.2 q.content

/-- **A rendering** shows what is held back and then the texts of the items, in their order. -/
theorem shown_render (c : Context) (items : List BodyItem) :
    shown (c.render p items) = shown c.heldBack ++ items.flatMap BodyItem.shown := by
  induction items generalizing c with
  | nil => simp [render]
  | cons item items ih =>
    rw [render, shown_append, ih, ← List.append_assoc, shown_step, List.append_assoc,
      List.flatMap_cons]

end Context

/-- **The rendering of a package** shows the texts of the items of its body. -/
theorem shown_pieces (p : Package) :
    shown p.pieces = (bodyItems p).flatMap BodyItem.shown := by
  rw [Package.pieces, Context.shown_render]
  rfl

end Docx

end Interdoc

import Interdoc.Proofs.Docx.Emission
import Interdoc.Proofs.Html.Tags

/-!
# Rendered packages are well nested

Whatever is in a package, its HTML closes every element that it opens (`html_wellNested`).
Formatted segments leave the elements of the last format open, which are what the next segment
starts from.  Items leave the open lists open, two elements for each (`Context.openTags`), and the
closing of a context ends exactly those.

The context itself stays `Coherent`: only one kind of content is held back or open at a time, and
the open lists get deeper from the outside in.
-/

namespace Interdoc.Docx

open Html (Piece Moves WellNested)

/-! ### Segments -/

/-- The elements of formats. -/
def formatTags : List String := ["strong", "em", "u", "code"]

theorem RunFormat.mem_formatTags {f : RunFormat} {tag : String} (h : tag ∈ f.tags) :
    tag ∈ formatTags := by
  have hall : ∀ bold italic underline code,
      ∀ tag ∈ (RunFormat.mk bold italic underline code).tags, tag ∈ formatTags := by
    decide
  exact hall f.bold f.italic f.underline f.code tag h

theorem formatTags_spec : ∀ tag ∈ formatTags,
    Html.isTagName tag.toList = true ∧ tag ∉ Html.voidTags := by
  decide

/-- What lists share at their start is the same part of both. -/
theorem take_commonLength (as bs : List String) :
    as.take (commonLength as bs) = bs.take (commonLength as bs) := by
  induction as generalizing bs with
  | nil => rfl
  | cons a as ih =>
    cases bs with
    | nil => rfl
    | cons b bs =>
      rw [commonLength]
      split
      · next h => rw [h, List.take_succ_cons, List.take_succ_cons, ih]
      · rfl

variable {outer : List String}

theorem moves_closeTags {tags : List String} (h : ∀ tag ∈ tags, tag ∈ formatTags) :
    Moves (closeTags tags) (tags.reverse ++ outer) outer := by
  rw [closeTags]
  have hreversed : ∀ tag ∈ tags.reverse, tag ∈ formatTags := fun tag htag =>
    h tag (List.mem_reverse.mp htag)
  generalize tags.reverse = reversed at hreversed
  induction reversed with
  | nil => exact .nil
  | cons tag reversed ih =>
    rw [List.forall_mem_cons] at hreversed
    exact (Moves.finish (formatTags_spec tag hreversed.1).1).append (ih hreversed.2)

theorem moves_openTags {tags : List String} (h : ∀ tag ∈ tags, tag ∈ formatTags) :
    Moves (openTags tags) outer (tags.reverse ++ outer) := by
  induction tags generalizing outer with
  | nil => exact .nil
  | cons tag tags ih =>
    rw [List.forall_mem_cons] at h
    obtain ⟨hname, hvoid⟩ := formatTags_spec tag h.1
    rw [List.reverse_cons, List.append_assoc]
    exact (Moves.start hname hvoid (List.forall_mem_nil _)).append (ih h.2)

/-- **Segments close what their formats open**, and the elements that were open for the segment
before them. -/
theorem moves_renderSegmentsFrom {opened : List String} {segments : List Segment}
    (hopened : ∀ tag ∈ opened, tag ∈ formatTags)
    (h : ∀ s ∈ segments, WellNested [s.piece]) :
    Moves (renderSegmentsFrom opened segments) (opened.reverse ++ outer) outer := by
  induction segments generalizing opened with
  | nil => exact moves_closeTags hopened
  | cons s segments ih =>
    rw [List.forall_mem_cons] at h
    have htags : ∀ tag ∈ s.format.tags, tag ∈ formatTags := fun tag htag =>
      RunFormat.mem_formatTags htag
    rw [renderSegmentsFrom]
    set common := commonLength opened s.format.tags with hcommon
    -- both lists of elements are the shared part and a rest of their own
    have hclose : Moves (closeTags (opened.drop common)) (opened.reverse ++ outer)
        ((opened.take common).reverse ++ outer) := by
      have hsplit : opened.reverse ++ outer =
          (opened.drop common).reverse ++ ((opened.take common).reverse ++ outer) := by
        rw [← List.append_assoc, ← List.reverse_append, List.take_append_drop]
      rw [hsplit]
      exact moves_closeTags fun tag htag => hopened tag (List.mem_of_mem_drop htag)
    have hopen : Moves (openTags (s.format.tags.drop common))
        ((opened.take common).reverse ++ outer) (s.format.tags.reverse ++ outer) := by
      have hsplit : s.format.tags.reverse ++ outer = (s.format.tags.drop common).reverse ++
          ((opened.take common).reverse ++ outer) := by
        rw [hcommon, take_commonLength, ← hcommon, ← List.append_assoc, ← List.reverse_append,
          List.take_append_drop]
      rw [hsplit]
      exact moves_openTags fun tag htag => htags tag (List.mem_of_mem_drop htag)
    have hrest : Moves (s.piece :: renderSegmentsFrom s.format.tags segments)
        (s.format.tags.reverse ++ outer) outer := (h.1 _).append (ih htags h.2)
    exact (hclose.append hopen).append hrest

theorem wellNested_renderSegments {segments : List Segment}
    (h : ∀ s ∈ segments, WellNested [s.piece]) : WellNested (renderSegments segments) :=
  fun _ => moves_renderSegmentsFrom (List.forall_mem_nil _) h

/-! ### Paragraphs -/

variable (p : Package)

theorem wellNested_image {drawing : Xml.Node} {piece : Piece} (h : image? p drawing = some piece) :
    WellNested [piece] := by
  simp only [image?, Option.bind_eq_bind, Option.bind_eq_some_iff] at h
  obtain ⟨blip, -, embed, -, src, -, h⟩ := h
  obtain rfl := Option.some.inj h
  have hnames : Html.isTagName "src".toList = true ∧ Html.isTagName "alt".toList = true := by
    decide
  refine Html.wellNested_void (by decide) ?_
  simp only [List.forall_mem_cons]
  exact ⟨hnames.1, hnames.2, List.forall_mem_nil _⟩

theorem wellNested_runPiece {part : Xml.Node} {piece : Piece} (h : runPiece? p part = some piece) :
    WellNested [piece] := by
  cases part with
  | text s => cases h
  | element name attributes children =>
    rw [runPiece?] at h
    split_ifs at h
    · obtain rfl := Option.some.inj h
      exact Html.wellNested_text _
    · obtain rfl := Option.some.inj h
      exact Html.wellNested_text _
    · obtain rfl := Option.some.inj h
      exact Html.wellNested_void (by decide) (List.forall_mem_nil _)
    · exact wellNested_image p h

theorem wellNested_runSegments (run : Xml.Node) (inLink : Bool) :
    ∀ s ∈ runSegments p run inLink, WellNested [s.piece] := by
  intro s hs
  obtain ⟨piece, hpiece, rfl⟩ := List.mem_map.mp hs
  obtain ⟨part, -, hpart⟩ := List.mem_filterMap.mp hpiece
  exact wellNested_runPiece p hpart

mutual

theorem wellNested_segmentsOf (inLink : Bool) (node : Xml.Node) :
    ∀ s ∈ segmentsOf p inLink node, WellNested [s.piece] := by
  cases node with
  | text s => exact List.forall_mem_nil _
  | element name attributes children =>
    rw [segmentsOf]
    split
    · exact wellNested_runSegments p _ inLink
    · split
      · exact List.forall_mem_nil _
      · exact wellNested_segmentsAmong inLink children

theorem wellNested_segmentsAmong (inLink : Bool) (nodes : List Xml.Node) :
    ∀ s ∈ segmentsAmong p inLink nodes, WellNested [s.piece] := by
  cases nodes with
  | nil => exact List.forall_mem_nil _
  | cons node rest =>
    rw [segmentsAmong, List.forall_mem_append]
    exact ⟨wellNested_segmentsOf inLink node, wellNested_segmentsAmong inLink rest⟩

end

theorem wellNested_contentFrom {pending : List Segment} (nodes : List Xml.Node)
    (h : ∀ s ∈ pending, WellNested [s.piece]) : WellNested (contentFrom p pending nodes) := by
  induction nodes generalizing pending with
  | nil => exact wellNested_renderSegments h
  | cons node nodes ih =>
    rw [contentFrom]
    split
    · have hlink : WellNested (renderSegments (segmentsAmong p true node.children)) :=
        wellNested_renderSegments (wellNested_segmentsAmong p true node.children)
      have hhref : Html.isTagName "href".toList = true := by decide
      have helement : WellNested (.start "a" [("href", hyperlinkTarget p node)] ::
          renderSegments (segmentsAmong p true node.children) ++ [.finish "a"]) :=
        Html.wellNested_element (by decide) (by decide) (List.forall_mem_singleton.mpr hhref) hlink
      have hall := ((wellNested_renderSegments h).append helement).append
        (ih (List.forall_mem_nil _))
      simpa using hall
    · exact ih (List.forall_mem_append.mpr ⟨h, wellNested_segmentsOf p false node⟩)

/-- **The content of every paragraph is well nested.** -/
theorem wellNested_contentOf (paragraph : Xml.Node) : WellNested (contentOf p paragraph) :=
  wellNested_contentFrom p _ (List.forall_mem_nil _)

/-! ### Tables -/

/-- An element without attributes. -/
theorem wellNested_plainElement {tag : String} {content : List Piece}
    (htag : Html.isTagName tag.toList = true ∧ tag ∉ Html.voidTags) (h : WellNested content) :
    WellNested (Html.element tag content) :=
  Html.wellNested_element htag.1 htag.2 (List.forall_mem_nil _) h

theorem wellNested_paragraphElement {content : List Piece} (h : WellNested content) :
    WellNested (Html.element "p" content) :=
  wellNested_plainElement (by decide) h

theorem wellNested_cellPieces {tag : String}
    (htag : Html.isTagName tag.toList = true ∧ tag ∉ Html.voidTags) (cell : Xml.Node) :
    WellNested (cellPieces p tag cell) := by
  rw [cellPieces]
  refine Html.wellNested_element htag.1 htag.2 ?_
    (.flatMap fun q _ => wellNested_paragraphElement (wellNested_contentOf p q))
  split
  · exact List.forall_mem_singleton.mpr (show Html.isTagName "style".toList = true by decide)
  · exact List.forall_mem_nil _

theorem wellNested_rowPieces (row : Xml.Node) : WellNested (rowPieces p row) := by
  have htag : ∀ isHeader : Bool, Html.isTagName (if isHeader then "th" else "td").toList = true ∧
      (if isHeader then "th" else "td") ∉ Html.voidTags := by
    decide
  exact wellNested_plainElement (by decide)
    (.flatMap fun cell _ => wellNested_cellPieces p (htag (isHeaderRow row)) cell)

theorem wellNested_tablePieces (table : Xml.Node) : WellNested (tablePieces p table) :=
  wellNested_plainElement (by decide) (.flatMap fun row _ => wellNested_rowPieces p row)

/-! ### Items -/

theorem headingLevel?_bounds {style : List Char} {level : Nat}
    (h : headingLevel? style = some level) : 1 ≤ level ∧ level ≤ 6 := by
  rw [headingLevel?] at h
  split at h
  · split at h
    · split_ifs at h
      obtain rfl := Option.some.inj h
      omega
    · cases h
  · cases h

theorem ofStyle_heading {style : String} {level : Nat}
    (h : ParagraphKind.ofStyle style = .heading level) : 1 ≤ level ∧ level ≤ 6 := by
  rw [ParagraphKind.ofStyle] at h
  split at h
  · next l hl =>
    obtain rfl := ParagraphKind.heading.inj h
    exact headingLevel?_bounds hl
  · split_ifs at h

/-- An item has well nested pieces, and is no heading of a level that there is not. -/
def BodyItem.IsWellNested : BodyItem → Prop
  | .paragraph q =>
    WellNested q.content ∧ ∀ level, q.kind = .heading level → 1 ≤ level ∧ level ≤ 6
  | .table pieces => WellNested pieces

mutual

theorem wellNested_itemsOf (node : Xml.Node) : ∀ item ∈ itemsOf p node, item.IsWellNested := by
  cases node with
  | text s => exact List.forall_mem_nil _
  | element name attributes children =>
    rw [itemsOf]
    split
    · exact List.forall_mem_singleton.mpr
        ⟨wellNested_contentOf p _, fun level hlevel => ofStyle_heading hlevel⟩
    · split
      · exact List.forall_mem_singleton.mpr (wellNested_tablePieces p _)
      · split
        · exact wellNested_controlItems children
        · split
          · exact wellNested_itemsAmong children
          · exact List.forall_mem_nil _

theorem wellNested_itemsAmong (nodes : List Xml.Node) :
    ∀ item ∈ itemsAmong p nodes, item.IsWellNested := by
  cases nodes with
  | nil => exact List.forall_mem_nil _
  | cons node rest =>
    rw [itemsAmong, List.forall_mem_append]
    exact ⟨wellNested_itemsOf node, wellNested_itemsAmong rest⟩

theorem wellNested_controlItems (nodes : List Xml.Node) :
    ∀ item ∈ controlItems p nodes, item.IsWellNested := by
  match nodes with
  | [] => exact List.forall_mem_nil _
  | .text s :: rest => exact wellNested_controlItems rest
  | .element name attributes children :: rest =>
    rw [controlItems]
    split
    · exact wellNested_itemsAmong children
    · exact wellNested_controlItems rest

end

theorem wellNested_bodyItems : ∀ item ∈ bodyItems p, item.IsWellNested := by
  rw [bodyItems]
  split
  · exact wellNested_itemsAmong p _
  · exact List.forall_mem_nil _

namespace Context

/-! ### Open lists -/

/-- The open elements of lists, the innermost first. -/
def frameTags (frames : List ListFrame) : List String :=
  frames.flatMap fun frame => ["li", listTag frame.ordered]

/-- The open elements of a context, the innermost first. -/
def openTags (c : Context) : List String :=
  frameTags c.lists

theorem listTag_spec (ordered : Bool) :
    Html.isTagName (listTag ordered).toList = true ∧ listTag ordered ∉ Html.voidTags := by
  cases ordered <;> decide

theorem moves_closeList (frame : ListFrame) :
    Moves (closeList frame) ("li" :: listTag frame.ordered :: outer) outer :=
  (Moves.finish (by decide)).append (Moves.finish (listTag_spec frame.ordered).1)

theorem moves_closeFrames (frames : List ListFrame) :
    Moves (closeFrames frames) (frameTags frames ++ outer) outer := by
  induction frames with
  | nil => exact .nil
  | cons frame frames ih => exact (moves_closeList frame).append ih

theorem moves_closeLists (c : Context) : Moves c.closeLists c.openTags [] := by
  have h : Moves (closeFrames c.lists) (frameTags c.lists ++ []) [] := moves_closeFrames c.lists
  rwa [List.append_nil] at h

/-- A numbered paragraph closes lists from the inside, and the others stay open. -/
theorem moves_closeFor (numId : String) (level : Nat) (frames : List ListFrame) :
    Moves (closeFor numId level frames).1 (frameTags frames)
      (frameTags (closeFor numId level frames).2) := by
  induction frames with
  | nil => exact .nil
  | cons frame frames ih =>
    rw [closeFor]
    split
    · exact (moves_closeList frame).append ih
    · exact .nil

theorem wellNested_heldBack (c : Context) (h : ∀ content ∈ c.quotes, WellNested content) :
    WellNested c.heldBack := by
  have hcode : WellNested (codePieces c.codeLines) := by
    rw [codePieces]
    split
    · exact .nil
    · exact wellNested_plainElement (by decide)
        (wellNested_plainElement (by decide) (Html.wellNested_text _))
  have hquotes : WellNested (quotePieces c.quotes) := by
    rw [quotePieces]
    split
    · exact .nil
    · exact wellNested_plainElement (by decide)
        (.flatMap fun content hcontent => wellNested_paragraphElement (h content hcontent))
  exact hcode.append hquotes

/-! ### Steps -/

/-- What is held back is well nested. -/
def IsWellNested (c : Context) : Prop :=
  ∀ content ∈ c.quotes, WellNested content

variable {p} {c : Context} {q : Paragraph}

theorem wellNested_simplePieces (hcontent : WellNested q.content)
    (hlevel : ∀ level, q.kind = .heading level → 1 ≤ level ∧ level ≤ 6) :
    WellNested (simplePieces q.kind q.content) := by
  cases hkind : q.kind with
  | heading level =>
    obtain ⟨hmin, hmax⟩ := hlevel level hkind
    have htag : Html.isTagName ("h" ++ toString level).toList = true ∧
        ("h" ++ toString level) ∉ Html.voidTags := by
      interval_cases level <;> decide
    exact wellNested_plainElement htag hcontent
  | rule => exact Html.wellNested_void (by decide) (List.forall_mem_nil _)
  | normal | code | quote | continuation => exact wellNested_paragraphElement hcontent

theorem moves_standalone {pieces : List Piece} (hc : c.IsWellNested) (h : WellNested pieces) :
    Moves (c.standalone pieces).1 c.openTags (c.standalone pieces).2.openTags :=
  ((wellNested_heldBack c hc _).append c.moves_closeLists).append (h [])

theorem moves_codeLine (hc : c.IsWellNested) (line : List Char) :
    Moves (c.codeLine line).1 c.openTags (c.codeLine line).2.openTags := by
  rw [codeLine]
  split
  · exact c.moves_closeLists
  · exact (wellNested_heldBack c hc _).append c.moves_closeLists

theorem moves_quote (hc : c.IsWellNested) (content : List Piece) :
    Moves (c.quote content).1 c.openTags (c.quote content).2.openTags := by
  rw [quote]
  split
  · exact c.moves_closeLists
  · exact (wellNested_heldBack c hc _).append c.moves_closeLists

/-- A numbered paragraph ends lists, begins an item, and leaves the lists of its item open. -/
theorem moves_listItem (hc : c.IsWellNested) (numId level : String) {content : List Piece}
    (h : WellNested content) : Moves (c.listItem p numId level content).1 c.openTags
      (c.listItem p numId level content).2.openTags := by
  rw [listItem]
  have hclose := moves_closeFor numId (levelNumber level) c.lists
  set closed := closeFor numId (levelNumber level) c.lists with hclosed
  set isNext := (closed.2.head?.map fun frame => frame.level == levelNumber level).getD false
    with hisNext
  set ordered := p.isOrdered numId level
  have hopening : Moves
      (if isNext then [.finish "li", .start "li" []]
        else [.start (listTag ordered) [], .start "li" []])
      (frameTags closed.2)
      (frameTags (if isNext then closed.2
        else ⟨numId, levelNumber level, ordered⟩ :: closed.2)) := by
    have hitem {opened : List String} : Moves [.start "li" []] opened ("li" :: opened) :=
      Moves.start (by decide) (by decide) (List.forall_mem_nil _)
    -- either the list goes on with a new item, or a list is opened for the item
    by_cases hnext : isNext = true
    · rw [if_pos hnext, if_pos hnext]
      cases hlists : closed.2 with
      | nil =>
        rw [hisNext, hlists] at hnext
        cases hnext
      | cons frame frames => exact (Moves.finish (by decide)).append hitem
    · rw [if_neg hnext, if_neg hnext]
      exact (Moves.start (listTag_spec ordered).1 (listTag_spec ordered).2
        (List.forall_mem_nil _)).append hitem
  exact (((wellNested_heldBack c hc _).append hclose).append hopening).append
    (wellNested_paragraphElement h _)

theorem moves_unnumbered (hc : c.IsWellNested) (h : (BodyItem.paragraph q).IsWellNested) :
    Moves (c.unnumbered q).1 c.openTags (c.unnumbered q).2.openTags := by
  obtain ⟨hcontent, hlevel⟩ := h
  rw [unnumbered]
  split
  · exact moves_codeLine hc q.codeLine
  · exact moves_quote hc q.content
  · split
    · exact moves_standalone hc (wellNested_paragraphElement hcontent)
    · exact (wellNested_heldBack c hc _).append (wellNested_paragraphElement hcontent _)
  · exact moves_standalone hc (wellNested_simplePieces hcontent hlevel)

/-- **A step closes and opens lists only.** -/
theorem moves_step {item : BodyItem} (hc : c.IsWellNested) (h : item.IsWellNested) :
    Moves (c.step p item).1 c.openTags (c.step p item).2.openTags := by
  cases item with
  | table pieces => exact moves_standalone hc h
  | paragraph q =>
    rw [step]
    split
    · exact moves_listItem hc _ _ h.1
    · exact moves_unnumbered hc h

theorem isWellNested_step {item : BodyItem} (hc : c.IsWellNested) (h : item.IsWellNested) :
    (c.step p item).2.IsWellNested := by
  cases item with
  | table pieces => exact List.forall_mem_nil _
  | paragraph q =>
    rw [step]
    split
    · exact List.forall_mem_nil _
    · rw [unnumbered]
      split
      · rw [codeLine]
        split
        · exact hc
        · exact List.forall_mem_nil _
      · rw [quote]
        split
        · exact List.forall_mem_append.mpr ⟨hc, List.forall_mem_singleton.mpr h.1⟩
        · exact List.forall_mem_singleton.mpr h.1
      · split <;> exact List.forall_mem_nil _
      · exact List.forall_mem_nil _

/-- **A rendering closes everything that was open before it, and all that it opens.** -/
theorem moves_render {items : List BodyItem} (hc : c.IsWellNested)
    (h : ∀ item ∈ items, item.IsWellNested) : Moves (c.render p items) c.openTags [] := by
  induction items generalizing c with
  | nil => exact (wellNested_heldBack c hc _).append c.moves_closeLists
  | cons item items ih =>
    rw [List.forall_mem_cons] at h
    exact (moves_step hc h.1).append (ih (isWellNested_step hc h.1) h.2)

/-! ### Coherent contexts -/

/-- At most one of the lines of code, the quotes and the lists is there, and the open lists get
deeper from the outside in. -/
structure Coherent (c : Context) : Prop where
  atMostOne : [c.codeLines.isEmpty, c.quotes.isEmpty, c.lists.isEmpty].count false ≤ 1
  levels : c.lists.Pairwise fun inner outer => outer.level < inner.level

theorem coherent_empty : Coherent {} :=
  ⟨by decide, .nil⟩

theorem coherent_lists {frames : List ListFrame}
    (h : frames.Pairwise fun inner outer => outer.level < inner.level) :
    Coherent { lists := frames } := by
  refine ⟨?_, h⟩
  change [true, true, frames.isEmpty].count false ≤ 1
  cases frames.isEmpty <;> decide

/-- The lists that stay open are not deeper than the paragraph that closed the others. -/
theorem closeFor_spec (numId : String) (level : Nat) {frames : List ListFrame}
    (h : frames.Pairwise fun inner outer => outer.level < inner.level) :
    (closeFor numId level frames).2.Pairwise (fun inner outer => outer.level < inner.level) ∧
      ∀ frame ∈ (closeFor numId level frames).2, frame.level ≤ level := by
  induction frames with
  | nil => exact ⟨.nil, List.forall_mem_nil _⟩
  | cons frame frames ih =>
    rw [List.pairwise_cons] at h
    rw [closeFor]
    split
    · exact ih h.2
    · next hstay =>
      have hlevel : frame.level ≤ level := by
        simp only [Bool.or_eq_true, decide_eq_true_eq, not_or] at hstay
        omega
      refine ⟨List.pairwise_cons.mpr h, List.forall_mem_cons.mpr ⟨hlevel, fun other hother => ?_⟩⟩
      have := h.1 other hother
      omega

theorem coherent_listItem (h : c.Coherent) (numId level : String) (content : List Piece) :
    (c.listItem p numId level content).2.Coherent := by
  obtain ⟨hpairwise, hlevel⟩ := closeFor_spec numId (levelNumber level) h.levels
  rw [listItem]
  refine coherent_lists ?_
  split
  · exact hpairwise
  · next hnext =>
    refine List.pairwise_cons.mpr ⟨fun frame hframe => ?_, hpairwise⟩
    -- the innermost list is of another level, so it and all around it are less deep
    cases hlists : (closeFor numId (levelNumber level) c.lists).2 with
    | nil =>
      rw [hlists] at hframe
      cases hframe
    | cons innermost around =>
      rw [hlists] at hframe hpairwise hlevel hnext
      have hne : innermost.level ≠ levelNumber level := by
        simpa using hnext
      have hinnermost := hlevel innermost List.mem_cons_self
      rcases List.mem_cons.mp hframe with rfl | haround
      · change frame.level < levelNumber level
        omega
      · have := (List.pairwise_cons.mp hpairwise).1 frame haround
        change frame.level < levelNumber level
        omega

theorem coherent_codeLine (line : List Char) : (c.codeLine line).2.Coherent := by
  rw [codeLine]
  split
  · next hquotes =>
    refine ⟨?_, .nil⟩
    change [(c.codeLines ++ [line]).isEmpty, c.quotes.isEmpty, true].count false ≤ 1
    rw [hquotes]
    cases (c.codeLines ++ [line]).isEmpty <;> decide
  · exact ⟨by simp, .nil⟩

theorem coherent_quote (content : List Piece) : (c.quote content).2.Coherent := by
  rw [quote]
  split
  · next hcode =>
    refine ⟨?_, .nil⟩
    change [c.codeLines.isEmpty, (c.quotes ++ [content]).isEmpty, true].count false ≤ 1
    rw [hcode]
    cases (c.quotes ++ [content]).isEmpty <;> decide
  · exact ⟨by simp, .nil⟩

/-- **A step keeps a context coherent.** -/
theorem coherent_step (h : c.Coherent) (item : BodyItem) : (c.step p item).2.Coherent := by
  cases item with
  | table pieces => exact coherent_empty
  | paragraph q =>
    rw [step]
    split
    · exact coherent_listItem h _ _ _
    · rw [unnumbered]
      split
      · exact coherent_codeLine _
      · exact coherent_quote _
      · split
        · exact coherent_empty
        · exact coherent_lists h.levels
      · exact coherent_empty

/-- The context after a sequence of items. -/
def after (p : Package) (c : Context) (items : List BodyItem) : Context :=
  items.foldl (fun c item => (c.step p item).2) c

/-- It is the context in which rendering goes on after them. -/
theorem exists_emits_after (p : Package) (c : Context) (items : List BodyItem) :
    ∃ pieces, Emits p c items pieces (c.after p items) := by
  induction items generalizing c with
  | nil => exact ⟨[], .nil c⟩
  | cons item items ih =>
    obtain ⟨pieces, hpieces⟩ := ih (c.step p item).2
    exact ⟨(c.step p item).1 ++ pieces, .cons rfl hpieces⟩

/-- **Any sequence of items keeps a context coherent.** -/
theorem coherent_after (h : c.Coherent) (items : List BodyItem) : (c.after p items).Coherent := by
  induction items generalizing c with
  | nil => exact h
  | cons item items ih => exact ih (coherent_step h item)

end Context

/-! ### Packages -/

/-- **The HTML of every package is well nested.**  It is read strictly, as the lexemes of the pieces
that were rendered, so no character of the package is taken for markup; its tags close every element
that they open, the innermost first, and nothing else.  On the way through any sequence of items the
context is coherent. -/
theorem html_wellNested (p : Package) :
    (∃ lexemes, Html.lexemes? p.html = some lexemes ∧ lexemes = p.pieces.flatMap Piece.lexemes ∧
      (∀ t ∈ lexemes, t.isEscaped = true) ∧ Html.openAfter? [] lexemes = some []) ∧
    ∀ items, (∃ pieces, Context.Emits p {} items pieces (Context.after p {} items)) ∧
      (Context.after p {} items).Coherent := by
  have hmoves : Moves p.pieces [] [] :=
    Context.moves_render (List.forall_mem_nil _) (wellNested_bodyItems p)
  have hescaped : ∀ t ∈ p.pieces.flatMap Piece.lexemes, t.isEscaped = true := by
    intro t ht
    obtain ⟨piece, -, ht⟩ := List.mem_flatMap.mp ht
    exact Html.Piece.isEscaped_of_mem_lexemes ht
  constructor
  · exact ⟨_, Html.lexemes?_render hmoves.names, rfl, hescaped, hmoves.opened⟩
  · intro items
    exact ⟨Context.exists_emits_after p {} items,
      Context.coherent_after Context.coherent_empty items⟩

end Interdoc.Docx

import Interdoc.Proofs.Docx.WellNested
import Interdoc.Proofs.Html.Parse

/-!
# Rendered packages are parsed as what they say

The pieces of every package stand where they may: paragraphs, lists, quotes and code in the body or
in items and cells, formatting in them, and no formatting or link within one of its kind.  So the
HTML of a package, read as any HTML is, has in its body just what the pieces denote
(`bodyOf_parse_html`), if nothing in the package is read as something else.
-/

namespace Interdoc.Docx

open Html (Piece Leads Fits HavePlainNames modeOf cellTags)
open Html.Builder (AllowsText bodyTags headingTags phraseTags)

variable {base outer : List String}

/-! ### Places for text -/

/-- The names of elements whose content is read as that of what is around them. -/
def transparentTags : List String :=
  ["p", "blockquote", "ul", "ol", "li", "pre"] ++ headingTags ++ phraseTags

theorem modeOf_cons {tag : String} (htag : tag ∈ transparentTags) (tags : List String) :
    modeOf (tag :: tags) = modeOf tags := by
  have hspec : ∀ tag ∈ transparentTags, cellTags.contains tag = false ∧ tag ≠ "tr" ∧
      tag ≠ "tbody" ∧ tag ≠ "table" := by
    decide
  obtain ⟨hcell, hrow, hbody, htable⟩ := hspec tag htag
  simp only [modeOf, hcell, hrow, hbody, htable, Bool.false_eq_true, if_false]

theorem allowsText_append {tags : List String} (htags : ∀ tag ∈ tags, tag ∈ transparentTags)
    (h : AllowsText base) : AllowsText (tags ++ base) := by
  induction tags with
  | nil => exact h
  | cons tag tags ih =>
    rw [List.forall_mem_cons] at htags
    rw [AllowsText, List.cons_append, modeOf_cons htags.1]
    exact ih htags.2

/-- Texts and formatting may stand directly in elements of the given names. -/
structure HoldsPhrases (base : List String) : Prop where
  text : AllowsText base
  top : ∃ top outer, base = top :: outer ∧ top ≠ "pre" ∧ top ≠ "body"
  formats : ∀ tag ∈ formatTags, tag ∉ base

theorem formatTags_mem : ∀ tag ∈ formatTags, tag ∈ phraseTags ∧ tag ∈ transparentTags ∧
    tag ≠ "pre" ∧ tag ≠ "body" := by
  decide

theorem havePlainNames_nil : HavePlainNames [] :=
  ⟨List.forall_mem_nil _, List.nodup_nil⟩

/-! ### Segments -/

/-- A text, a line break or an image. -/
inductive IsPhrase : Piece → Prop
  | text (s : String) : IsPhrase (.text s)
  | void {tag : String} {attributes : List (String × String)} (htag : tag = "br" ∨ tag = "img")
    (h : HavePlainNames attributes) : IsPhrase (.void tag attributes)

theorem leads_phrase {piece : Piece} (h : IsPhrase piece) (hbase : HoldsPhrases base)
    {tags : List String} (htags : ∀ tag ∈ tags, tag ∈ formatTags) :
    Leads base [piece] tags tags := by
  have htext : AllowsText (tags ++ base) :=
    allowsText_append (fun tag htag => (formatTags_mem tag (htags tag htag)).2.1) hbase.text
  cases h with
  | void htag h => exact .void (.void htext htag h)
  | text s =>
    obtain ⟨top, outer, hcons, htop⟩ : ∃ top outer, tags ++ base = top :: outer ∧ top ≠ "pre" ∧
        top ≠ "body" := by
      cases tags with
      | nil => exact hbase.top
      | cons tag tags =>
        exact ⟨tag, tags ++ base, rfl, (formatTags_mem tag (htags tag List.mem_cons_self)).2.2⟩
    refine .text ?_
    rw [hcons] at htext ⊢
    exact .text s htext htop

theorem leads_closeTags {tags outer : List String} (h : ∀ tag ∈ tags, tag ∈ formatTags)
    (houter : ∀ tag ∈ outer, tag ∈ formatTags) (hbase : HoldsPhrases base) :
    Leads base (closeTags tags) (tags.reverse ++ outer) outer := by
  rw [closeTags]
  have hreversed : ∀ tag ∈ tags.reverse, tag ∈ formatTags := fun tag htag =>
    h tag (List.mem_reverse.mp htag)
  generalize tags.reverse = reversed at hreversed
  induction reversed with
  | nil => exact .nil
  | cons tag reversed ih =>
    have hall : ∀ t ∈ tag :: reversed ++ outer, t ∈ formatTags :=
      List.forall_mem_append.mpr ⟨hreversed, houter⟩
    have htext : AllowsText (tag :: reversed ++ outer ++ base) :=
      allowsText_append (fun t ht => (formatTags_mem t (hall t ht)).2.1) hbase.text
    rw [List.forall_mem_cons] at hreversed
    exact (Leads.finish (.formattingEnd htext (formatTags_mem tag hreversed.1).1)).append
      (ih hreversed.2)

theorem leads_openTags {tags outer : List String} (h : ∀ tag ∈ tags, tag ∈ formatTags)
    (houter : ∀ tag ∈ outer, tag ∈ formatTags) (hnodup : (tags.reverse ++ outer).Nodup)
    (hbase : HoldsPhrases base) :
    Leads base (openTags tags) outer (tags.reverse ++ outer) := by
  induction tags generalizing outer with
  | nil => exact .nil
  | cons tag tags ih =>
    rw [List.forall_mem_cons] at h
    rw [List.reverse_cons, List.append_assoc] at hnodup ⊢
    have htext : AllowsText (outer ++ base) :=
      allowsText_append (fun t ht => (formatTags_mem t (houter t ht)).2.1) hbase.text
    have hnew : tag ∉ outer ++ base := by
      rw [List.mem_append, not_or]
      exact ⟨(List.nodup_cons.mp (List.nodup_append.mp hnodup).2.1).1, hbase.formats tag h.1⟩
    have hopen : Leads base [.start tag []] outer (tag :: outer) :=
      .start (.formatting htext hnew (formatTags_mem tag h.1).1 havePlainNames_nil)
    exact hopen.append (ih h.2 (List.forall_mem_cons.mpr ⟨h.1, houter⟩) hnodup)

theorem RunFormat.nodup_tags (f : RunFormat) : f.tags.Nodup := by
  have hall : ∀ bold italic underline code,
      (RunFormat.mk bold italic underline code).tags.Nodup := by
    decide
  exact hall f.bold f.italic f.underline f.code

/-- **Segments are read with their formats.** -/
theorem leads_renderSegmentsFrom {opened : List String} {segments : List Segment}
    (hopened : ∀ tag ∈ opened, tag ∈ formatTags) (hnodup : opened.Nodup)
    (h : ∀ s ∈ segments, IsPhrase s.piece) (hbase : HoldsPhrases base) :
    Leads base (renderSegmentsFrom opened segments) opened.reverse [] := by
  induction segments generalizing opened with
  | nil =>
    have hclose : Leads base (closeTags opened) (opened.reverse ++ []) [] :=
      leads_closeTags hopened (List.forall_mem_nil _) hbase
    rwa [List.append_nil] at hclose
  | cons s segments ih =>
    rw [List.forall_mem_cons] at h
    have htags : ∀ tag ∈ s.format.tags, tag ∈ formatTags := fun tag htag =>
      RunFormat.mem_formatTags htag
    rw [renderSegmentsFrom]
    set common := commonLength opened s.format.tags with hcommon
    have hshared : ∀ tag ∈ (opened.take common).reverse, tag ∈ formatTags := fun tag htag =>
      hopened tag (List.mem_of_mem_take (List.mem_reverse.mp htag))
    -- the elements beyond the common ones are closed, and the new ones opened inside of these
    have hclose : Leads base (closeTags (opened.drop common)) opened.reverse
        (opened.take common).reverse := by
      have hsplit : opened.reverse =
          (opened.drop common).reverse ++ (opened.take common).reverse := by
        rw [← List.reverse_append, List.take_append_drop]
      rw [hsplit]
      exact leads_closeTags (fun tag htag => hopened tag (List.mem_of_mem_drop htag)) hshared hbase
    have hopen : Leads base (openTags (s.format.tags.drop common)) (opened.take common).reverse
        s.format.tags.reverse := by
      have hsplit : s.format.tags.reverse =
          (s.format.tags.drop common).reverse ++ (opened.take common).reverse := by
        rw [hcommon, take_commonLength, ← hcommon, ← List.reverse_append, List.take_append_drop]
      have hnodup : (s.format.tags.reverse).Nodup :=
        (List.reverse_perm _).nodup_iff.mpr s.format.nodup_tags
      rw [hsplit] at hnodup ⊢
      exact leads_openTags (fun tag htag => htags tag (List.mem_of_mem_drop htag)) hshared hnodup
        hbase
    have hpiece : Leads base [s.piece] s.format.tags.reverse s.format.tags.reverse :=
      leads_phrase h.1 hbase fun tag htag => htags tag (List.mem_reverse.mp htag)
    exact (hclose.append hopen).append (hpiece.append (ih htags s.format.nodup_tags h.2))

theorem leads_renderSegments {segments : List Segment} (h : ∀ s ∈ segments, IsPhrase s.piece)
    (hbase : HoldsPhrases base) : Leads base (renderSegments segments) [] [] :=
  leads_renderSegmentsFrom (List.forall_mem_nil _) List.nodup_nil h hbase

/-! ### Paragraphs -/

variable (p : Package)

theorem isPhrase_image {drawing : Xml.Node} {piece : Piece} (h : image? p drawing = some piece) :
    IsPhrase piece := by
  simp only [image?, Option.bind_eq_bind, Option.bind_eq_some_iff] at h
  obtain ⟨blip, -, embed, -, src, -, h⟩ := h
  obtain rfl := Option.some.inj h
  refine .void (.inr rfl) ⟨?_, (by decide : ["src", "alt"].Nodup)⟩
  simp only [List.forall_mem_cons]
  exact ⟨by decide, by decide, List.forall_mem_nil _⟩

theorem isPhrase_runPiece {part : Xml.Node} {piece : Piece} (h : runPiece? p part = some piece) :
    IsPhrase piece := by
  cases part with
  | text s => cases h
  | element name attributes children =>
    rw [runPiece?] at h
    split_ifs at h
    · obtain rfl := Option.some.inj h
      exact .text _
    · obtain rfl := Option.some.inj h
      exact .text _
    · obtain rfl := Option.some.inj h
      exact .void (.inl rfl) havePlainNames_nil
    · exact isPhrase_image p h

theorem isPhrase_runSegments (run : Xml.Node) (inLink : Bool) :
    ∀ s ∈ runSegments p run inLink, IsPhrase s.piece := by
  intro s hs
  obtain ⟨piece, hpiece, rfl⟩ := List.mem_map.mp hs
  obtain ⟨part, -, hpart⟩ := List.mem_filterMap.mp hpiece
  exact isPhrase_runPiece p hpart

mutual

theorem isPhrase_segmentsOf (inLink : Bool) (node : Xml.Node) :
    ∀ s ∈ segmentsOf p inLink node, IsPhrase s.piece := by
  cases node with
  | text s => exact List.forall_mem_nil _
  | element name attributes children =>
    rw [segmentsOf]
    split
    · exact isPhrase_runSegments p _ inLink
    · split
      · exact List.forall_mem_nil _
      · exact isPhrase_segmentsAmong inLink children

theorem isPhrase_segmentsAmong (inLink : Bool) (nodes : List Xml.Node) :
    ∀ s ∈ segmentsAmong p inLink nodes, IsPhrase s.piece := by
  cases nodes with
  | nil => exact List.forall_mem_nil _
  | cons node rest =>
    rw [segmentsAmong, List.forall_mem_append]
    exact ⟨isPhrase_segmentsOf inLink node, isPhrase_segmentsAmong inLink rest⟩

end

/-- Formatting may stand in a link. -/
theorem HoldsPhrases.link (h : HoldsPhrases base) : HoldsPhrases ("a" :: base) := by
  refine ⟨?_, ⟨"a", base, rfl, by decide, by decide⟩, fun tag htag => ?_⟩
  · have hlink : AllowsText (["a"] ++ base) := allowsText_append (by decide) h.text
    exact hlink
  · rw [List.mem_cons, not_or]
    exact ⟨(by decide : ∀ tag ∈ formatTags, tag ≠ "a") tag htag, h.formats tag htag⟩

theorem leads_contentFrom {pending : List Segment} (nodes : List Xml.Node)
    (h : ∀ s ∈ pending, IsPhrase s.piece) (hbase : HoldsPhrases base) (hlink : "a" ∉ base) :
    Leads base (contentFrom p pending nodes) [] [] := by
  induction nodes generalizing pending with
  | nil => exact leads_renderSegments h hbase
  | cons node nodes ih =>
    rw [contentFrom]
    split
    -- what was pending, the link with its own segments, and then what follows
    · have hcontent : Leads ("a" :: base) (renderSegments (segmentsAmong p true node.children))
          [] [] :=
        leads_renderSegments (isPhrase_segmentsAmong p true node.children) hbase.link
      have hhref : HavePlainNames [("href", hyperlinkTarget p node)] :=
        ⟨List.forall_mem_singleton.mpr (show Html.isPlainName "href".toList = true by decide),
          List.pairwise_singleton _ _⟩
      have helement : Leads base (.start "a" [("href", hyperlinkTarget p node)] ::
          renderSegments (segmentsAmong p true node.children) ++ [.finish "a"]) [] [] :=
        .element (.formatting hbase.text hlink (by decide) hhref) hcontent
          (.formattingEnd hbase.link.text (by decide))
      have hall := ((leads_renderSegments h hbase).append helement).append
        (ih (List.forall_mem_nil _))
      simpa using hall
    · exact ih (List.forall_mem_append.mpr ⟨h, isPhrase_segmentsOf p false node⟩)

/-- Pieces may fill an element wherever formatting may stand. -/
def IsPhraseContent (content : List Piece) : Prop :=
  ∀ base, HoldsPhrases base → "a" ∉ base → Leads base content [] []

/-- **The content of every paragraph may stand in an element.** -/
theorem isPhraseContent_contentOf (paragraph : Xml.Node) :
    IsPhraseContent (contentOf p paragraph) := fun _ hbase hlink =>
  leads_contentFrom p _ (List.forall_mem_nil _) hbase hlink

/-! ### Blocks -/

/-- Paragraphs may stand directly in elements of the given names. -/
structure HoldsParagraphs (base : List String) : Prop where
  text : AllowsText base
  phrases : ∀ tag ∈ phraseTags, tag ∉ base
  paragraphs : "p" ∉ base

/-- Text may stand in a paragraph or a heading. -/
theorem HoldsParagraphs.holdsPhrases (h : HoldsParagraphs base) {tag : String}
    (htag : tag = "p" ∨ tag ∈ headingTags) :
    HoldsPhrases (tag :: base) ∧ "a" ∉ tag :: base := by
  have hspec : ∀ tag ∈ "p" :: headingTags, tag ∈ transparentTags ∧ tag ≠ "pre" ∧ tag ≠ "body" ∧
      ∀ t ∈ phraseTags, t ≠ tag := by
    decide
  obtain ⟨htransparent, hpre, hbody, hphrases⟩ := hspec tag (List.mem_cons.mpr htag)
  have hnew : ∀ t ∈ phraseTags, t ∉ tag :: base := fun t ht => by
    rw [List.mem_cons, not_or]
    exact ⟨hphrases t ht, h.phrases t ht⟩
  have htext : AllowsText ([tag] ++ base) :=
    allowsText_append (List.forall_mem_singleton.mpr htransparent) h.text
  exact ⟨⟨htext, ⟨tag, base, rfl, hpre, hbody⟩, fun t ht => hnew t (formatTags_mem t ht).1⟩,
    hnew "a" (by decide)⟩

theorem leads_paragraph (h : HoldsParagraphs base) {content : List Piece}
    (hcontent : IsPhraseContent content) : Leads base (Html.element "p" content) [] [] := by
  obtain ⟨hphrases, hlink⟩ := h.holdsPhrases (.inl rfl)
  exact .element (.block h.text h.paragraphs (by decide) havePlainNames_nil)
    (hcontent _ hphrases hlink) (.blockEnd hphrases.text (by decide))

/-- Elements of blocks around, the innermost first. -/
theorem holdsParagraphs_append {tags : List String}
    (htags : ∀ tag ∈ tags, tag ∈ ["blockquote", "ul", "ol", "li"]) (h : HoldsParagraphs base) :
    HoldsParagraphs (tags ++ base) := by
  have hspec : ∀ tag ∈ ["blockquote", "ul", "ol", "li"], tag ∈ transparentTags ∧ "p" ≠ tag ∧
      ∀ t ∈ phraseTags, t ≠ tag := by
    decide
  have hnew {t : String} (hne : ∀ tag ∈ ["blockquote", "ul", "ol", "li"], t ≠ tag) (ht : t ∉ base) :
      t ∉ tags ++ base := by
    rw [List.mem_append, not_or]
    exact ⟨fun hmem => hne t (htags t hmem) rfl, ht⟩
  exact ⟨allowsText_append (fun tag htag => (hspec tag (htags tag htag)).1) h.text,
    fun t ht => hnew (fun tag htag => (hspec tag htag).2.2 t ht) (h.phrases t ht),
    hnew (fun tag htag => (hspec tag htag).2.1) h.paragraphs⟩

theorem holdsParagraphs_body : HoldsParagraphs bodyTags :=
  ⟨.inl rfl, by decide, by decide⟩

/-! ### Tables -/

theorem leads_cellPieces {tag : String} (htag : tag ∈ cellTags) (cell : Xml.Node) :
    Leads ("tr" :: Html.groupTags) (cellPieces p tag cell) [] [] := by
  have hcell : HoldsParagraphs (tag :: "tr" :: Html.groupTags) := by
    have hspec : ∀ tag ∈ cellTags, modeOf (tag :: "tr" :: Html.groupTags) = .inCell ∧
        (∀ t ∈ phraseTags, t ∉ tag :: "tr" :: Html.groupTags) ∧
        "p" ∉ tag :: "tr" :: Html.groupTags := by
      decide
    obtain ⟨hmode, hphrases, hp⟩ := hspec tag htag
    exact ⟨.inr hmode, hphrases, hp⟩
  rw [cellPieces]
  refine .element (.cell htag ?_)
    (.flatMap fun q _ => leads_paragraph hcell (isPhraseContent_contentOf p q))
    (.cellEnd rfl htag)
  split
  · exact ⟨List.forall_mem_singleton.mpr (show Html.isPlainName "style".toList = true by decide),
      List.pairwise_singleton _ _⟩
  · exact havePlainNames_nil

theorem leads_tablePieces (table : Xml.Node) : Leads bodyTags (tablePieces p table) [] [] := by
  have htag : ∀ isHeader : Bool, (if isHeader then "th" else "td") ∈ cellTags := by decide
  exact .table fun row _ => .flatMap fun cell _ => leads_cellPieces p (htag (isHeaderRow row)) cell

/-! ### Items -/

/-- An item may stand in the body of a document. -/
def BodyItem.BelongsInBody : BodyItem → Prop
  | .paragraph q =>
    IsPhraseContent q.content ∧ ∀ level, q.kind = .heading level → 1 ≤ level ∧ level ≤ 6
  | .table pieces => Leads bodyTags pieces [] []

mutual

theorem belongsInBody_itemsOf (node : Xml.Node) : ∀ item ∈ itemsOf p node, item.BelongsInBody := by
  cases node with
  | text s => exact List.forall_mem_nil _
  | element name attributes children =>
    rw [itemsOf]
    split
    · exact List.forall_mem_singleton.mpr
        ⟨isPhraseContent_contentOf p _, fun level hlevel => ofStyle_heading hlevel⟩
    · split
      · exact List.forall_mem_singleton.mpr (leads_tablePieces p _)
      · split
        · exact belongsInBody_controlItems children
        · split
          · exact belongsInBody_itemsAmong children
          · exact List.forall_mem_nil _

theorem belongsInBody_itemsAmong (nodes : List Xml.Node) :
    ∀ item ∈ itemsAmong p nodes, item.BelongsInBody := by
  cases nodes with
  | nil => exact List.forall_mem_nil _
  | cons node rest =>
    rw [itemsAmong, List.forall_mem_append]
    exact ⟨belongsInBody_itemsOf node, belongsInBody_itemsAmong rest⟩

theorem belongsInBody_controlItems (nodes : List Xml.Node) :
    ∀ item ∈ controlItems p nodes, item.BelongsInBody := by
  match nodes with
  | [] => exact List.forall_mem_nil _
  | .text s :: rest => exact belongsInBody_controlItems rest
  | .element name attributes children :: rest =>
    rw [controlItems]
    split
    · exact belongsInBody_itemsAmong children
    · exact belongsInBody_controlItems rest

end

theorem belongsInBody_bodyItems : ∀ item ∈ bodyItems p, item.BelongsInBody := by
  rw [bodyItems]
  split
  · exact belongsInBody_itemsAmong p _
  · exact List.forall_mem_nil _

namespace Context

/-! ### Open lists -/

theorem frameTags_mem (frames : List ListFrame) :
    ∀ tag ∈ frameTags frames, tag ∈ ["blockquote", "ul", "ol", "li"] := by
  intro tag htag
  obtain ⟨frame, -, hmem⟩ := List.mem_flatMap.mp htag
  have hall : ∀ ordered, ∀ tag ∈ ["li", listTag ordered], tag ∈ ["blockquote", "ul", "ol", "li"] := by
    decide
  exact hall frame.ordered tag hmem

theorem holdsParagraphs_frameTags (frames : List ListFrame) :
    HoldsParagraphs (frameTags frames ++ bodyTags) :=
  holdsParagraphs_append (frameTags_mem frames) holdsParagraphs_body

theorem leads_closeList (frame : ListFrame) (frames : List ListFrame) :
    Leads bodyTags (closeList frame) (frameTags (frame :: frames)) (frameTags frames) := by
  have hlist : ∀ ordered, listTag ordered ∈ Html.Builder.flowTags ∧
      listTag ordered ∈ ["blockquote", "ul", "ol", "li"] := by
    decide
  have hinner : HoldsParagraphs (listTag frame.ordered :: frameTags frames ++ bodyTags) := by
    refine holdsParagraphs_append ?_ holdsParagraphs_body
    exact List.forall_mem_cons.mpr ⟨(hlist frame.ordered).2, frameTags_mem frames⟩
  exact (Leads.finish (.blockEnd (holdsParagraphs_frameTags (frame :: frames)).text
    (by decide))).append (Leads.finish (.blockEnd hinner.text (hlist frame.ordered).1))

theorem leads_closeFrames (frames : List ListFrame) :
    Leads bodyTags (closeFrames frames) (frameTags frames) [] := by
  induction frames with
  | nil => exact .nil
  | cons frame frames ih => exact (leads_closeList frame frames).append ih

theorem leads_closeLists (c : Context) : Leads bodyTags c.closeLists c.openTags [] :=
  leads_closeFrames c.lists

theorem leads_closeFor (numId : String) (level : Nat) (frames : List ListFrame) :
    Leads bodyTags (closeFor numId level frames).1 (frameTags frames)
      (frameTags (closeFor numId level frames).2) := by
  induction frames with
  | nil => exact .nil
  | cons frame frames ih =>
    rw [closeFor]
    split
    · exact (leads_closeList frame frames).append ih
    · exact .nil

/-! ### What is held back -/

theorem leads_codePieces {base : List String} (h : HoldsParagraphs base)
    (lines : List (List Char)) : Leads base (codePieces lines) [] [] := by
  rw [codePieces]
  split
  · exact .nil
  · have hpre : AllowsText (["pre"] ++ base) := allowsText_append (by decide) h.text
    have hcode : AllowsText (["code", "pre"] ++ base) := allowsText_append (by decide) h.text
    have hnew : "code" ∉ "pre" :: base := by
      rw [List.mem_cons, not_or]
      exact ⟨by decide, h.phrases "code" (by decide)⟩
    exact .element (.block h.text h.paragraphs (by decide) havePlainNames_nil)
      (.element (.formatting hpre hnew (by decide) havePlainNames_nil)
        (.text (.text _ hcode ⟨by decide, by decide⟩)) (.formattingEnd hcode (by decide)))
      (.blockEnd hpre (by decide))

/-- What is held back may stand in the body. -/
def BelongsInBody (c : Context) : Prop :=
  ∀ content ∈ c.quotes, IsPhraseContent content

theorem leads_heldBack {base : List String} (h : HoldsParagraphs base) {c : Context}
    (hc : c.BelongsInBody) : Leads base c.heldBack [] [] := by
  have hquotes : Leads base (quotePieces c.quotes) [] [] := by
    rw [quotePieces]
    split
    · exact .nil
    · have hquote : HoldsParagraphs (["blockquote"] ++ base) :=
        holdsParagraphs_append (by decide) h
      exact .element (.block h.text h.paragraphs (by decide) havePlainNames_nil)
        (.flatMap fun content hcontent => leads_paragraph hquote (hc content hcontent))
        (.blockEnd hquote.text (by decide))
  exact (leads_codePieces h c.codeLines).append hquotes

/-- It is read directly inside of the open lists. -/
theorem leads_heldBack_inside {c : Context} (hc : c.BelongsInBody) :
    Leads bodyTags c.heldBack c.openTags c.openTags :=
  .inside (leads_heldBack (holdsParagraphs_frameTags c.lists) hc)

/-! ### Steps -/

variable {p} {c : Context} {q : Paragraph}

theorem leads_simplePieces (hcontent : IsPhraseContent q.content)
    (hlevel : ∀ level, q.kind = .heading level → 1 ≤ level ∧ level ≤ 6) :
    Leads bodyTags (simplePieces q.kind q.content) [] [] := by
  have hbody := holdsParagraphs_body
  cases hkind : q.kind with
  | heading level =>
    obtain ⟨hmin, hmax⟩ := hlevel level hkind
    have htag : ("h" ++ toString level) ∈ headingTags := by
      interval_cases level <;> decide
    have hflow : ∀ tag ∈ headingTags, tag ∈ Html.Builder.flowTags := by decide
    obtain ⟨hphrases, hlink⟩ := hbody.holdsPhrases (.inr htag)
    exact .element (.heading hbody.text hbody.paragraphs (by decide) htag havePlainNames_nil)
      (hcontent _ hphrases hlink) (.blockEnd hphrases.text (hflow _ htag))
  | rule => exact .void (.rule hbody.text hbody.paragraphs havePlainNames_nil)
  | normal | code | quote | continuation => exact leads_paragraph hbody hcontent

theorem leads_standalone {pieces : List Piece} (hc : c.BelongsInBody)
    (h : Leads bodyTags pieces [] []) :
    Leads bodyTags (c.standalone pieces).1 c.openTags (c.standalone pieces).2.openTags :=
  ((leads_heldBack_inside hc).append c.leads_closeLists).append h

theorem leads_codeLine (hc : c.BelongsInBody) (line : List Char) :
    Leads bodyTags (c.codeLine line).1 c.openTags (c.codeLine line).2.openTags := by
  rw [codeLine]
  split
  · exact c.leads_closeLists
  · exact (leads_heldBack_inside hc).append c.leads_closeLists

theorem leads_quote (hc : c.BelongsInBody) (content : List Piece) :
    Leads bodyTags (c.quote content).1 c.openTags (c.quote content).2.openTags := by
  rw [quote]
  split
  · exact c.leads_closeLists
  · exact (leads_heldBack_inside hc).append c.leads_closeLists

/-- A paragraph inside of the open lists. -/
theorem leads_paragraph_inside (frames : List ListFrame) {content : List Piece}
    (h : IsPhraseContent content) :
    Leads bodyTags (Html.element "p" content) (frameTags frames) (frameTags frames) :=
  .inside (leads_paragraph (holdsParagraphs_frameTags frames) h)

/-- The start of an item directly in a list. -/
theorem leads_itemStart (frame : ListFrame) (frames : List ListFrame) :
    Leads bodyTags [.start "li" []] (listTag frame.ordered :: frameTags frames)
      (frameTags (frame :: frames)) := by
  have hlist : ∀ ordered, (listTag ordered = "ul" ∨ listTag ordered = "ol") ∧
      listTag ordered ∈ ["blockquote", "ul", "ol", "li"] := by
    decide
  have hinner : HoldsParagraphs (listTag frame.ordered :: frameTags frames ++ bodyTags) := by
    refine holdsParagraphs_append ?_ holdsParagraphs_body
    exact List.forall_mem_cons.mpr ⟨(hlist frame.ordered).2, frameTags_mem frames⟩
  exact .start (.item hinner.text hinner.paragraphs (hlist frame.ordered).1 havePlainNames_nil)

theorem leads_listItem (hc : c.BelongsInBody) (numId level : String) {content : List Piece}
    (h : IsPhraseContent content) : Leads bodyTags (c.listItem p numId level content).1 c.openTags
      (c.listItem p numId level content).2.openTags := by
  rw [listItem]
  have hclose := leads_closeFor numId (levelNumber level) c.lists
  set closed := closeFor numId (levelNumber level) c.lists with hclosed
  set isNext := (closed.2.head?.map fun frame => frame.level == levelNumber level).getD false
    with hisNext
  set ordered := p.isOrdered numId level
  have hopening : Leads bodyTags
      (if isNext then [.finish "li", .start "li" []]
        else [.start (listTag ordered) [], .start "li" []])
      (frameTags closed.2)
      (frameTags (if isNext then closed.2
        else ⟨numId, levelNumber level, ordered⟩ :: closed.2)) := by
    -- either the list goes on with a new item, or a list is opened for the item
    by_cases hnext : isNext = true
    · rw [if_pos hnext, if_pos hnext]
      cases hlists : closed.2 with
      | nil =>
        rw [hisNext, hlists] at hnext
        cases hnext
      | cons frame frames =>
        have hend : Leads bodyTags [.finish "li"] (frameTags (frame :: frames))
            (listTag frame.ordered :: frameTags frames) :=
          .finish (.blockEnd (holdsParagraphs_frameTags (frame :: frames)).text (by decide))
        exact hend.append (leads_itemStart frame frames)
    · rw [if_neg hnext, if_neg hnext]
      have hbase := holdsParagraphs_frameTags closed.2
      have hlist : ∀ ordered, listTag ordered ∈ ["p", "blockquote", "ul", "ol", "pre", "table"] := by
        decide
      have hstart : Leads bodyTags [.start (listTag ordered) []] (frameTags closed.2)
          (listTag ordered :: frameTags closed.2) :=
        .start (.block hbase.text hbase.paragraphs (hlist ordered) havePlainNames_nil)
      exact hstart.append (leads_itemStart ⟨numId, levelNumber level, ordered⟩ closed.2)
  exact (((leads_heldBack_inside hc).append hclose).append hopening).append
    (leads_paragraph_inside _ h)

theorem leads_unnumbered (hc : c.BelongsInBody) (h : (BodyItem.paragraph q).BelongsInBody) :
    Leads bodyTags (c.unnumbered q).1 c.openTags (c.unnumbered q).2.openTags := by
  obtain ⟨hcontent, hlevel⟩ := h
  rw [unnumbered]
  split
  · exact leads_codeLine hc q.codeLine
  · exact leads_quote hc q.content
  · split
    · exact leads_standalone hc (leads_paragraph holdsParagraphs_body hcontent)
    · exact (leads_heldBack_inside hc).append (leads_paragraph_inside c.lists hcontent)
  · exact leads_standalone hc (leads_simplePieces hcontent hlevel)

/-- **A step leads from the open lists to the open lists.** -/
theorem leads_step {item : BodyItem} (hc : c.BelongsInBody) (h : item.BelongsInBody) :
    Leads bodyTags (c.step p item).1 c.openTags (c.step p item).2.openTags := by
  cases item with
  | table pieces => exact leads_standalone hc h
  | paragraph q =>
    rw [step]
    split
    · exact leads_listItem hc _ _ h.1
    · exact leads_unnumbered hc h

theorem belongsInBody_step {item : BodyItem} (hc : c.BelongsInBody) (h : item.BelongsInBody) :
    (c.step p item).2.BelongsInBody := by
  cases item with
  | table pieces => exact List.forall_mem_nil _
  | paragraph q =>
    rw [step]
    split
    · exact List.forall_mem_nil _
    · rw [unnumbered]
      split
      · rw [codeLine]
        split
        · exact hc
        · exact List.forall_mem_nil _
      · rw [quote]
        split
        · exact List.forall_mem_append.mpr ⟨hc, List.forall_mem_singleton.mpr h.1⟩
        · exact List.forall_mem_singleton.mpr h.1
      · split <;> exact List.forall_mem_nil _
      · exact List.forall_mem_nil _

/-- **A rendering leads from the open lists to none.** -/
theorem leads_render {items : List BodyItem} (hc : c.BelongsInBody)
    (h : ∀ item ∈ items, item.BelongsInBody) :
    Leads bodyTags (c.render p items) c.openTags [] := by
  induction items generalizing c with
  | nil => exact (leads_heldBack_inside hc).append c.leads_closeLists
  | cons item items ih =>
    rw [List.forall_mem_cons] at h
    exact (leads_step hc h.1).append (ih (belongsInBody_step hc h.1) h.2)

end Context

/-! ### Packages -/

/-- **The HTML of a package is parsed as what it says**, if there is no character in it that no HTML
has: its body holds the nodes that the pieces denote. -/
theorem bodyOf_parse_html (hnull : '\x00' ∉ p.html) (hreturn : '\r' ∉ p.html) :
    Html.bodyOf (Html.parse p.html) = Html.nodesOf p.pieces :=
  Html.bodyOf_parse_render
    (Context.leads_render (List.forall_mem_nil _) (belongsInBody_bodyItems p)) hnull hreturn

end Interdoc.Docx

import Interdoc.Proofs.Docx.Escape
import Interdoc.Proofs.Docx.Links
import Interdoc.Proofs.Docx.ListNumbers
import Interdoc.Proofs.Docx.ParsedHtml

/-!
# The characters of rendered packages

What is rendered has the characters of the texts and the values in it, and those of tags.  So a
carriage return or a null character gets into the HTML of a written package only from a text that is
written, and a carriage return not even so, since no end of a line survives in the XML of a package
(`not_mem_html`).  Hence written packages are parsed as what they say, if there is no null character
in their texts (`Layout.bodyOf_parse_html`).
-/

namespace Interdoc.Docx

open Interdoc (Alignment)
open Html (Piece)
open Xml (unbroken)

/-- The characters that are read as others in HTML. -/
def isReplaced (c : Char) : Bool := c == '\x00' || c == '\r'

theorem isReplaced_spec {c : Char} (h : isReplaced c = true) : c.isAlphanum = false ∧ c ≠ '<' ∧
    c ≠ '>' ∧ c ≠ '/' ∧ c ≠ ' ' ∧ c ≠ '=' ∧ c ≠ '"' ∧ c ≠ '&' ∧ c ≠ '\n' := by
  rw [isReplaced, Bool.or_eq_true, beq_iff_eq, beq_iff_eq] at h
  rcases h with rfl | rfl <;> decide

variable {c : Char} {pieces : List Piece}

/-! ### Pieces -/

/-- A character is in no text and no value of a piece. -/
def Avoids (c : Char) : Piece → Prop
  | .start _ attributes | .void _ attributes => ∀ a ∈ attributes, c ∉ a.2.toList
  | .finish _ => True
  | .text s => c ∉ s.toList

theorem isReplaced_not_mem_escape {s : List Char} (hc : isReplaced c = true) (h : c ∉ s) :
    c ∉ Html.escape s := by
  intro hmem
  rcases Html.mem_escape_cases hmem with ⟨hs, -⟩ | ⟨r, hr, hreference⟩
  · exact h hs
  · have hall : ∀ r ∈ Html.reservedNames, ∀ d ∈ '&' :: r.1 ++ [';'], isReplaced d = false := by
      decide
    rw [hall r hr c hreference] at hc
    cases hc

theorem not_mem_tagName {name : List Char} (hc : isReplaced c = true)
    (h : Html.isTagName name = true) : c ∉ name := by
  rw [Html.isTagName, Bool.and_eq_true, List.all_eq_true] at h
  intro hmem
  have halphanum := h.2 c hmem
  rw [(isReplaced_spec hc).1] at halphanum
  cases halphanum

/-- What is rendered has the characters of its texts and values, and those of tags. -/
theorem not_mem_render (hc : isReplaced c = true) (hnames : ∀ piece ∈ pieces, piece.HasNames)
    (h : ∀ piece ∈ pieces, Avoids c piece) : c ∉ Html.render pieces := by
  obtain ⟨-, hless, hgreater, hslash, hspace, hequals, hquote, -, -⟩ := isReplaced_spec hc
  have hstart {tag : String} {attributes : List (String × String)}
      (hnames : Html.isTagName tag.toList = true ∧ ∀ a ∈ attributes, Html.isTagName a.1.toList = true)
      (h : ∀ a ∈ attributes, c ∉ a.2.toList) : c ∉ Html.renderStart tag attributes := by
    -- in an attribute it could only come from the name or from the value
    have hattributes : c ∉ attributes.flatMap Html.renderAttribute := by
      intro hmem
      obtain ⟨a, ha, hmem⟩ := List.mem_flatMap.mp hmem
      have hname := not_mem_tagName hc (hnames.2 a ha)
      have hvalue := isReplaced_not_mem_escape hc (h a ha)
      simp [Html.renderAttribute, hspace, hequals, hquote, hname, hvalue] at hmem
    have htag := not_mem_tagName hc hnames.1
    simp [Html.renderStart, hless, hgreater, htag, hattributes]
  intro hmem
  obtain ⟨piece, hpiece, hmem⟩ := List.mem_flatMap.mp hmem
  have hname := hnames piece hpiece
  have hpiece := h piece hpiece
  cases piece with
  | start tag attributes | void tag attributes => exact hstart hname hpiece hmem
  | finish tag =>
    have htag := not_mem_tagName hc hname
    simp [Piece.render, hless, hgreater, hslash, htag] at hmem
  | text s => exact isReplaced_not_mem_escape hc hpiece hmem

theorem avoids_element {tag : String} {content : List Piece} (h : ∀ q ∈ content, Avoids c q) :
    ∀ q ∈ Html.element tag content, Avoids c q := by
  rw [Html.element, List.cons_append, List.forall_mem_cons, List.forall_mem_append]
  exact ⟨List.forall_mem_nil _, h, List.forall_mem_singleton.mpr trivial⟩

theorem avoids_flatMap {ι : Type} {f : ι → List Piece} {is : List ι}
    (h : ∀ i ∈ is, ∀ q ∈ f i, Avoids c q) : ∀ q ∈ is.flatMap f, Avoids c q := by
  intro q hq
  obtain ⟨i, hi, hq⟩ := List.mem_flatMap.mp hq
  exact h i hi q hq

/-! ### Segments -/

theorem avoids_renderSegmentsFrom {opened : List String} {segments : List Segment}
    (h : ∀ s ∈ segments, Avoids c s.piece) :
    ∀ q ∈ renderSegmentsFrom opened segments, Avoids c q := by
  have hclose (tags : List String) : ∀ q ∈ closeTags tags, Avoids c q := by
    intro q hq
    obtain ⟨tag, -, rfl⟩ := List.mem_map.mp hq
    trivial
  have hopen (tags : List String) : ∀ q ∈ openTags tags, Avoids c q := by
    intro q hq
    obtain ⟨tag, -, rfl⟩ := List.mem_map.mp hq
    exact List.forall_mem_nil _
  induction segments generalizing opened with
  | nil => exact hclose opened
  | cons s segments ih =>
    rw [List.forall_mem_cons] at h
    rw [renderSegmentsFrom]
    simp only [List.forall_mem_append, List.forall_mem_cons]
    exact ⟨⟨hclose _, hopen _⟩, h.1, ih h.2⟩

/-! ### Contexts -/

/-- A character is in no piece of an item, and not in a line of code. -/
def BodyItem.Avoids (c : Char) : BodyItem → Prop
  | .paragraph q =>
    (∀ piece ∈ q.content, Docx.Avoids c piece) ∧ (q.kind = .code → c ∉ q.codeLine)
  | .table pieces => ∀ piece ∈ pieces, Docx.Avoids c piece

namespace Context

/-- A character is in nothing that is held back. -/
def Avoids (c : Char) (x : Context) : Prop :=
  (∀ line ∈ x.codeLines, c ∉ line) ∧ ∀ content ∈ x.quotes, ∀ piece ∈ content, Docx.Avoids c piece

variable {p : Package} {x : Context} {item : BodyItem}

theorem not_mem_unlines {ls : List (List Char)} (hc : c ≠ '\n') (h : ∀ l ∈ ls, c ∉ l) :
    c ∉ Text.unlines ls := by
  rw [Text.unlines]
  induction ls with
  | nil => exact List.not_mem_nil
  | cons l ls ih =>
    rw [List.forall_mem_cons] at h
    cases ls with
    | nil => exact h.1
    | cons l' ls =>
      rw [Text.join, List.mem_append, List.mem_append, List.mem_singleton, not_or, not_or]
      · exact ⟨⟨h.1, hc⟩, ih h.2⟩
      · exact List.cons_ne_nil l' ls

theorem avoids_heldBack (hc : isReplaced c = true) (h : x.Avoids c) :
    ∀ q ∈ x.heldBack, Docx.Avoids c q := by
  rw [heldBack, List.forall_mem_append]
  constructor
  · rw [codePieces]
    split
    · exact List.forall_mem_nil _
    · refine avoids_element (avoids_element (List.forall_mem_singleton.mpr ?_))
      have hlines : c ∉ Text.unlines x.codeLines :=
        not_mem_unlines (isReplaced_spec hc).2.2.2.2.2.2.2.2 h.1
      rwa [Docx.Avoids, String.toList_ofList]
  · rw [quotePieces]
    split
    · exact List.forall_mem_nil _
    · exact avoids_element (avoids_flatMap fun content hcontent =>
        avoids_element (h.2 content hcontent))

theorem avoids_closeFrames (frames : List ListFrame) :
    ∀ q ∈ closeFrames frames, Docx.Avoids c q :=
  avoids_flatMap fun _ _ => List.forall_mem_cons.mpr ⟨trivial, List.forall_mem_singleton.mpr trivial⟩

theorem avoids_closeFor (numId : String) (level : Nat) (frames : List ListFrame) :
    ∀ q ∈ (closeFor numId level frames).1, Docx.Avoids c q := by
  induction frames with
  | nil => exact List.forall_mem_nil _
  | cons frame frames ih =>
    rw [closeFor]
    split
    · exact List.forall_mem_cons.mpr ⟨trivial, List.forall_mem_cons.mpr ⟨trivial, ih⟩⟩
    · exact List.forall_mem_nil _

/-- What a step emits, and what it holds back, is from the item or was held back. -/
def StepAvoids (c : Char) (result : List Piece × Context) : Prop :=
  (∀ q ∈ result.1, Docx.Avoids c q) ∧ result.2.Avoids c

theorem avoids_released (c : Char) (frames : List ListFrame) :
    Avoids c { lists := frames } :=
  ⟨List.forall_mem_nil _, List.forall_mem_nil _⟩

theorem avoids_standalone (hc : isReplaced c = true) (h : x.Avoids c)
    {pieces : List Piece} (hpieces : ∀ q ∈ pieces, Docx.Avoids c q) :
    StepAvoids c (x.standalone pieces) := by
  refine ⟨?_, avoids_released c []⟩
  rw [standalone, List.forall_mem_append, List.forall_mem_append]
  exact ⟨⟨avoids_heldBack hc h, avoids_closeFrames x.lists⟩, hpieces⟩

theorem avoids_codeLine (hc : isReplaced c = true) (h : x.Avoids c) {line : List Char}
    (hline : c ∉ line) : StepAvoids c (x.codeLine line) := by
  rw [codeLine]
  split
  · exact ⟨avoids_closeFrames x.lists,
      List.forall_mem_append.mpr ⟨h.1, List.forall_mem_singleton.mpr hline⟩, h.2⟩
  · exact ⟨List.forall_mem_append.mpr ⟨avoids_heldBack hc h, avoids_closeFrames x.lists⟩,
      List.forall_mem_singleton.mpr hline, List.forall_mem_nil _⟩

theorem avoids_quote (hc : isReplaced c = true) (h : x.Avoids c) {content : List Piece}
    (hcontent : ∀ q ∈ content, Docx.Avoids c q) : StepAvoids c (x.quote content) := by
  rw [quote]
  split
  · exact ⟨avoids_closeFrames x.lists, h.1,
      List.forall_mem_append.mpr ⟨h.2, List.forall_mem_singleton.mpr hcontent⟩⟩
  · exact ⟨List.forall_mem_append.mpr ⟨avoids_heldBack hc h, avoids_closeFrames x.lists⟩,
      List.forall_mem_nil _, List.forall_mem_singleton.mpr hcontent⟩

theorem avoids_listItem (hc : isReplaced c = true) (h : x.Avoids c) (numId level : String)
    {content : List Piece} (hcontent : ∀ q ∈ content, Docx.Avoids c q) :
    StepAvoids c (x.listItem p numId level content) := by
  rw [listItem]
  refine ⟨?_, avoids_released c _⟩
  have hopening (isNext : Bool) (tag : String) : ∀ q ∈ (if isNext then [.finish "li", .start "li" []]
      else [.start tag [], .start "li" []] : List Piece), Docx.Avoids c q := by
    cases isNext
    · exact List.forall_mem_cons.mpr ⟨List.forall_mem_nil _,
        List.forall_mem_singleton.mpr (List.forall_mem_nil _)⟩
    · exact List.forall_mem_cons.mpr ⟨trivial,
        List.forall_mem_singleton.mpr (List.forall_mem_nil _)⟩
  simp only [List.forall_mem_append]
  exact ⟨⟨⟨avoids_heldBack hc h, avoids_closeFor _ _ _⟩, hopening _ _⟩, avoids_element hcontent⟩

/-- **No step lets a character in** that is not in its item. -/
theorem avoids_step (hc : isReplaced c = true) (h : x.Avoids c) (hitem : item.Avoids c) :
    StepAvoids c (x.step p item) := by
  cases item with
  | table pieces => exact avoids_standalone hc h hitem
  | paragraph q =>
    obtain ⟨hcontent, hline⟩ := hitem
    have hsimple : ∀ piece ∈ simplePieces q.kind q.content, Docx.Avoids c piece := by
      cases q.kind with
      | rule => exact List.forall_mem_singleton.mpr (List.forall_mem_nil _)
      | normal | heading | code | quote | continuation => exact avoids_element hcontent
    rw [step]
    -- a numbered paragraph, code, a quote, a further paragraph, or one on its own
    split
    · exact avoids_listItem hc h _ _ hcontent
    · rw [unnumbered]
      split
      · next hkind => exact avoids_codeLine hc h (hline hkind)
      · exact avoids_quote hc h hcontent
      · split
        · exact avoids_standalone hc h (avoids_element hcontent)
        · exact ⟨List.forall_mem_append.mpr ⟨avoids_heldBack hc h, avoids_element hcontent⟩,
            avoids_released c _⟩
      · exact avoids_standalone hc h hsimple

theorem avoids_render {items : List BodyItem} (hc : isReplaced c = true) (h : x.Avoids c)
    (hitems : ∀ item ∈ items, item.Avoids c) : ∀ q ∈ x.render p items, Docx.Avoids c q := by
  induction items generalizing x with
  | nil =>
    rw [render, List.forall_mem_append]
    exact ⟨avoids_heldBack hc h, avoids_closeFrames x.lists⟩
  | cons item items ih =>
    rw [List.forall_mem_cons] at hitems
    obtain ⟨hpieces, hnext⟩ := avoids_step (p := p) hc h hitems.1
    rw [render, List.forall_mem_append]
    exact ⟨hpieces, ih hnext hitems.2⟩

end Context

/-- **A character that is in no item of a package is not in its HTML.** -/
theorem not_mem_html {p : Package} (hc : isReplaced c = true)
    (h : ∀ item ∈ bodyItems p, item.Avoids c) : c ∉ p.html := by
  have hmoves : Html.Moves p.pieces [] [] :=
    Context.moves_render (List.forall_mem_nil _) (wellNested_bodyItems p)
  exact not_mem_render hc hmoves.names (Context.avoids_render hc (Context.avoids_released c []) h)

/-! ### Written paragraphs -/

/-- A character is not in the text of a run. -/
def WrittenRun.Avoids (c : Char) (r : WrittenRun) : Prop :=
  match r.content with
  | .text s => c ∉ (unbroken s).toList
  | .lineBreak => True

/-- No end of a line gets into a package. -/
theorem return_not_mem_unbroken (s : String) : '\r' ∉ (unbroken s).toList := by
  rw [unbroken, String.toList_ofList, List.mem_filter]
  exact fun hmem => absurd hmem.2 (by decide)

theorem WrittenRun.avoids_return (r : WrittenRun) : r.Avoids '\r' := by
  rw [Avoids]
  split
  · exact return_not_mem_unbroken _
  · trivial

theorem WrittenRun.avoids_piece {r : WrittenRun} (h : r.Avoids c) (inLink : Bool) :
    Docx.Avoids c (r.segment inLink).piece := by
  obtain ⟨properties, content⟩ := r
  cases content with
  | text s => exact h
  | lineBreak => exact List.forall_mem_nil _

/-- The text of a line of code is that of its runs. -/
theorem not_mem_codeLine {runs : List WrittenRun} (hc : isReplaced c = true)
    (h : ∀ r ∈ runs, r.Avoids c) :
    c ∉ unescapeCode (Html.render ((runs.map (WrittenRun.segment false)).map Segment.piece)) := by
  have hparts : (runs.map (WrittenRun.segment false)).map Segment.piece =
      (runs.map fun r => match r.content with
        | .text s => CodePart.text (unbroken s)
        | .lineBreak => .lineBreak).map CodePart.piece := by
    rw [List.map_map, List.map_map]
    refine List.map_congr_left fun r _ => ?_
    obtain ⟨properties, content⟩ := r
    cases content <;> rfl
  rw [hparts, render_pieces, unescapeCode_escaped, List.flatMap_map]
  intro hmem
  obtain ⟨r, hr, hmem⟩ := List.mem_flatMap.mp hmem
  have hrun := h r hr
  obtain ⟨properties, content⟩ := r
  cases content with
  | text s => exact hrun hmem
  | lineBreak => exact (isReplaced_spec hc).2.2.2.2.2.2.2.2 (List.mem_singleton.mp hmem)

/-- A character is not in the texts of a part, and not in the target of a link. -/
def ParagraphPart.Avoids (c : Char) : ParagraphPart → Prop
  | .run r => r.Avoids c
  | .hyperlink target runs => c ∉ (unbroken target).toList ∧ ∀ r ∈ runs, r.Avoids c

theorem ParagraphPart.Avoids.runs {part : ParagraphPart} (h : part.Avoids c) :
    ∀ r ∈ part.runs, r.Avoids c := by
  cases part with
  | run r => exact List.forall_mem_singleton.mpr h
  | hyperlink target runs => exact h.2

theorem ParagraphPart.avoids_return (part : ParagraphPart) : part.Avoids '\r' := by
  cases part with
  | run r => exact r.avoids_return
  | hyperlink target runs => exact ⟨return_not_mem_unbroken target, fun r _ => r.avoids_return⟩

/-- A character is in no text of a paragraph. -/
def WrittenParagraph.Avoids (c : Char) (p : WrittenParagraph) : Prop :=
  ∀ part ∈ p.parts, part.Avoids c

/-- What parts are read as has the characters of their texts and targets. -/
theorem avoids_readParts {parts : List ParagraphPart} (h : ∀ part ∈ parts, part.Avoids c)
    {pending : List Segment} (hpending : ∀ s ∈ pending, Avoids c s.piece) :
    ∀ q ∈ readParts pending parts, Avoids c q := by
  induction parts generalizing pending with
  | nil => exact avoids_renderSegmentsFrom hpending
  | cons part parts ih =>
    rw [List.forall_mem_cons] at h
    obtain ⟨hpart, hparts⟩ := h
    cases part with
    | run r =>
      exact ih hparts (List.forall_mem_append.mpr
        ⟨hpending, List.forall_mem_singleton.mpr (WrittenRun.avoids_piece hpart false)⟩)
    | hyperlink target runs =>
      have hruns : ∀ s ∈ runs.map (WrittenRun.segment true), Avoids c s.piece :=
        List.forall_mem_map.mpr fun r hr => WrittenRun.avoids_piece (hpart.2 r hr) true
      rw [readParts]
      simp only [List.forall_mem_append, List.forall_mem_cons]
      exact ⟨⟨avoids_renderSegmentsFrom hpending, List.forall_mem_singleton.mpr hpart.1,
        avoids_renderSegmentsFrom hruns⟩, trivial, ih hparts (List.forall_mem_nil _)⟩

theorem WrittenParagraph.avoids_read {p : WrittenParagraph} (hc : isReplaced c = true)
    (h : p.Avoids c) : (BodyItem.paragraph p.read).Avoids c := by
  have hruns : ∀ r ∈ p.parts.flatMap ParagraphPart.runs, r.Avoids c := by
    intro r hr
    obtain ⟨part, hpart, hr⟩ := List.mem_flatMap.mp hr
    exact (h part hpart).runs r hr
  refine ⟨avoids_renderSegmentsFrom fun s hs => ?_, fun _ => not_mem_codeLine hc hruns⟩
  obtain ⟨r, hr, rfl⟩ := List.mem_map.mp hs
  exact WrittenRun.avoids_piece (hruns r hr) false

/-! ### Layouts -/

theorem LayoutItem.avoids_read {item : LayoutItem} (hc : isReplaced c = true)
    (h : ∀ p ∈ item.paragraphs, p.Avoids c) : item.read.Avoids c := by
  cases item with
  | paragraph p => exact WrittenParagraph.avoids_read hc (h p List.mem_cons_self)
  | table rows =>
    refine avoids_element (avoids_flatMap fun row hrow => avoids_element (avoids_flatMap
      fun cell hcell => ?_))
    have halignment : ∀ a ∈ cellAttributes cell, c ∉ a.2.toList := by
      have hall : ∀ a : Alignment, ∀ e ∈ ("text-align:" ++ a.name).toList,
          isReplaced e = false := by
        intro a
        cases a <;> decide
      rw [cellAttributes]
      split
      · refine List.forall_mem_singleton.mpr fun hmem => ?_
        have hfalse := hall _ c hmem
        rw [hc] at hfalse
        cases hfalse
      · exact List.forall_mem_nil _
    rw [readCell, List.cons_append, List.forall_mem_cons, List.forall_mem_append]
    refine ⟨halignment, avoids_flatMap fun p hp => avoids_element ?_,
      List.forall_mem_singleton.mpr trivial⟩
    exact (WrittenParagraph.avoids_read hc (h p (List.mem_flatten.mpr
      ⟨cell, List.mem_flatten.mpr ⟨row, hrow, hcell⟩, hp⟩))).1

/-- There is no null character in the texts of a layout. -/
def Layout.HasNoNulls (l : Layout) : Prop :=
  ∀ item ∈ l.items, ∀ p ∈ item.paragraphs, p.Avoids '\x00'

/-- **A written package without links is parsed as what it says.** -/
theorem Layout.bodyOf_parse_html {l : Layout} (h : ∀ item ∈ l.items, item.IsPlain)
    (hnulls : l.HasNoNulls) {p : Package} (hp : l.package? = .ok p) :
    Html.bodyOf (Html.parse p.html) = Html.nodesOf p.pieces := by
  obtain ⟨p', hp', hitems, -⟩ := Layout.exists_package h
  obtain rfl : p' = p := Except.ok.inj (hp'.symm.trans hp)
  have havoids {c : Char} (hc : isReplaced c = true)
      (h : ∀ item ∈ l.items, ∀ p ∈ item.paragraphs, p.Avoids c) : c ∉ p'.html := by
    refine not_mem_html hc fun item hitem => ?_
    rw [hitems] at hitem
    obtain ⟨item, hmem, rfl⟩ := List.mem_map.mp hitem
    exact LayoutItem.avoids_read hc (h item hmem)
  exact Docx.bodyOf_parse_html p' (havoids (by decide) hnulls)
    (havoids (by decide) fun _ _ _ _ part _ => part.avoids_return)

end Interdoc.Docx

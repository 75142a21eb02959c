import Interdoc.Proofs.Docx.Glyphs
import Interdoc.Proofs.Docx.WellNested

/-!
# Rendered glyphs

The HTML of formatted segments shows their glyphs, each with its look (`showsIn_renderSegments`).
On the way the elements of the last format are open.  `Within` says what a state of reading shows
while they are: for each open element what was before it, and what is in it so far, all with the
looks that the elements around give.

An element of code is read as its bare text, so that nothing else may be in it.  Its tag is the
innermost of every format, and breaks are not in code.
-/

namespace Interdoc.Docx

open Interdoc (Inline)
open Html (Piece Nesting OpenElement)

/-! ### Elements -/

/-- The look in an element of a format. -/
def Look.inside (k : Look) (tag : String) : Look :=
  if tag = "strong" then { k with bold := true }
  else if tag = "em" then { k with italic := true }
  else if tag = "u" then { k with underline := true }
  else if tag = "code" then { k with code := true }
  else k

/-- The look in nested elements of a format, of which the innermost comes first. -/
def Look.within (k : Look) : List String → Look
  | [] => k
  | tag :: outer => (k.within outer).inside tag

/-- The look in the elements of a format is that of the format. -/
theorem within_tags (f : RunFormat) (href : Option String) :
    Look.within { href } f.tags.reverse = f.look href := by
  obtain ⟨bold, italic, underline, code⟩ := f
  cases bold <;> cases italic <;> cases underline <;> cases code <;> rfl

/-- What nodes show. -/
def nodeGlyphs (k : Look) (nodes : List Html.Node) : List Glyph :=
  glyphsAmong k (Html.inlinesAmong nodes)

/-- Nodes are nothing but texts. -/
def AreTexts (nodes : List Html.Node) : Prop :=
  ∀ node ∈ nodes, ∃ s, node = .text s

variable {k : Look}

theorem inlinesAmong_append (ms ns : List Html.Node) :
    Html.inlinesAmong (ms ++ ns) = Html.inlinesAmong ms ++ Html.inlinesAmong ns := by
  induction ms with
  | nil => rfl
  | cons m ms ih =>
    rw [List.cons_append, Html.inlinesAmong, Html.inlinesAmong, ih, List.append_assoc]

theorem nodeGlyphs_append (ms ns : List Html.Node) :
    nodeGlyphs k (ms ++ ns) = nodeGlyphs k ms ++ nodeGlyphs k ns := by
  rw [nodeGlyphs, inlinesAmong_append, glyphsAmong_append]
  rfl

/-- The text in texts has the glyphs of the texts. -/
theorem textGlyphs_textContentAmong {nodes : List Html.Node} (h : AreTexts nodes) :
    textGlyphs k (Html.Node.textContentAmong nodes) = nodeGlyphs k nodes := by
  induction nodes with
  | nil => rfl
  | cons node nodes ih =>
    obtain ⟨⟨s, rfl⟩, hnodes⟩ := List.forall_mem_cons.mp h
    rw [Html.Node.textContentAmong, textGlyphs_append, ih hnodes]
    rfl

/-- **An element of a format shows what is in it**, in the look that the element gives. -/
theorem nodeGlyphs_element {tag : String} (htag : tag ∈ formatTags) {children : List Html.Node}
    (hcode : tag = "code" → AreTexts children) :
    nodeGlyphs k [.element tag [] (Html.childrenOf tag children)] =
      nodeGlyphs (k.inside tag) children := by
  simp only [formatTags, List.mem_cons, List.not_mem_nil, or_false] at htag
  rcases htag with rfl | rfl | rfl | rfl
  · exact List.append_nil _
  · exact List.append_nil _
  · exact List.append_nil _
  · exact (List.append_nil _).trans (textGlyphs_textContentAmong (hcode rfl))

theorem nodeGlyphs_text (s : String) : nodeGlyphs k [.text s] = textGlyphs k s :=
  List.append_nil _

/-- A text adds its glyphs. -/
theorem nodeGlyphs_pushText (s : String) (reversed : List Html.Node) :
    nodeGlyphs k (Html.pushText s reversed).reverse =
      nodeGlyphs k reversed.reverse ++ textGlyphs k s := by
  unfold Html.pushText
  split
  · next h => rw [h, show textGlyphs k "" = [] from rfl, List.append_nil]
  split
  -- the text before it takes it up
  · next t rest =>
    rw [List.reverse_cons, List.reverse_cons, nodeGlyphs_append, nodeGlyphs_append, nodeGlyphs_text,
      nodeGlyphs_text, textGlyphs_append, List.append_assoc]
  · rw [List.reverse_cons, nodeGlyphs_append, nodeGlyphs_text]

theorem AreTexts.pushText {reversed : List Html.Node} (h : AreTexts reversed) (s : String) :
    AreTexts (Html.pushText s reversed) := by
  unfold Html.pushText
  split
  · exact h
  split
  · exact List.forall_mem_cons.mpr ⟨⟨_, rfl⟩, (List.forall_mem_cons.mp h).2⟩
  · exact List.forall_mem_cons.mpr ⟨⟨_, rfl⟩, h⟩

/-! ### Open elements -/

/-- In open elements with the given tags, the innermost first, a state of reading shows glyphs:
those before the elements and those in them. -/
def Within (k : Look) (base : List OpenElement) : List String → List Glyph → Nesting → Prop
  | [], gs, n => n.opened = base ∧ nodeGlyphs k n.reversed.reverse = gs
  | tag :: outer, gs, n => ∃ before opened shown,
      n.opened = ⟨tag, [], before⟩ :: opened ∧ Within k base outer shown ⟨opened, before⟩ ∧
      gs = shown ++ nodeGlyphs (k.within (tag :: outer)) n.reversed.reverse ∧
      (tag = "code" → AreTexts n.reversed)

namespace Within

variable {base : List OpenElement} {tags outer : List String} {tag : String} {gs : List Glyph}
  {n : Nesting}

/-- More nodes show more glyphs; in code they are texts. -/
theorem push (h : Within k base tags gs n) {reversed : List Html.Node} {more : List Glyph}
    (hmore : nodeGlyphs (k.within tags) reversed.reverse =
      nodeGlyphs (k.within tags) n.reversed.reverse ++ more)
    (hcode : tags.head? = some "code" → AreTexts n.reversed → AreTexts reversed) :
    Within k base tags (gs ++ more) ⟨n.opened, reversed⟩ := by
  cases tags with
  | nil =>
    obtain ⟨hopened, rfl⟩ := h
    exact ⟨hopened, hmore⟩
  | cons tag outer =>
    obtain ⟨before, opened, shown, hopened, hbefore, rfl, htexts⟩ := h
    refine ⟨before, opened, shown, hopened, hbefore, ?_, fun htag => ?_⟩
    · rw [hmore, List.append_assoc]
    · exact hcode (congrArg some htag) (htexts htag)

theorem text (h : Within k base tags gs n) (s : String) :
    Within k base tags (gs ++ textGlyphs (k.within tags) s) (n.step (.text s)) :=
  h.push (nodeGlyphs_pushText s n.reversed) fun _ htexts => htexts.pushText s

theorem lineBreak (h : Within k base tags gs n) (hcode : "code" ∉ tags) :
    Within k base tags (gs ++ [⟨none, k.within tags⟩]) (n.step (.void "br" [])) := by
  refine h.push ?_ fun hhead _ => absurd (List.mem_of_mem_head? hhead) hcode
  rw [List.reverse_cons, nodeGlyphs_append]
  rfl

theorem start (h : Within k base tags gs n) (tag : String) :
    Within k base (tag :: tags) gs (n.step (.start tag [])) :=
  ⟨n.reversed, n.opened, gs, rfl, h, (List.append_nil gs).symm, fun _ => List.forall_mem_nil _⟩

/-- The end of an element leaves its glyphs. -/
theorem finish (h : Within k base (tag :: outer) gs n) (htag : tag ∈ formatTags)
    (hcode : "code" ∉ outer) : Within k base outer gs (n.step (.finish tag)) := by
  obtain ⟨before, opened, shown, hopened, hbefore, rfl, htexts⟩ := h
  rw [Nesting.step, hopened]
  refine hbefore.push ?_ fun hhead _ => absurd (List.mem_of_mem_head? hhead) hcode
  rw [List.reverse_cons, nodeGlyphs_append]
  refine congrArg _ (nodeGlyphs_element htag fun hc node hnode => ?_)
  exact htexts hc node (List.mem_reverse.mp hnode)

theorem finishAll {inner : List String} (h : Within k base (inner ++ outer) gs n)
    (htags : ∀ tag ∈ inner, tag ∈ formatTags) (hcode : "code" ∉ (inner ++ outer).tail) :
    Within k base outer gs (n.run (inner.map .finish)) := by
  induction inner generalizing n with
  | nil => exact h
  | cons tag inner ih =>
    rw [List.forall_mem_cons] at htags
    rw [List.cons_append, List.tail_cons] at hcode
    exact ih (h.finish htags.1 hcode) htags.2 fun hmem => hcode (List.mem_of_mem_tail hmem)

theorem startAll (h : Within k base outer gs n) (tags : List String) :
    Within k base (tags.reverse ++ outer) gs (n.run (openTags tags)) := by
  induction tags generalizing n outer with
  | nil => exact h
  | cons tag tags ih =>
    rw [List.reverse_cons, List.append_assoc]
    exact ih (h.start tag)

end Within

/-! ### Segments -/

/-- A segment shows a text, or a break that is not in code. -/
def Segment.IsShown (s : Segment) : Prop :=
  (∃ t, s.piece = .text t) ∨ s.piece = .void "br" [] ∧ s.format.code = false

/-- The tag of code is the innermost. -/
theorem RunFormat.code_not_mem_tags (f : RunFormat) :
    "code" ∉ f.tags.reverse.tail ∧ (f.code = false → "code" ∉ f.tags) := by
  have hall : ∀ bold italic underline code,
      "code" ∉ (RunFormat.mk bold italic underline code).tags.reverse.tail ∧
        (code = false → "code" ∉ (RunFormat.mk bold italic underline code).tags) := by
    decide
  exact hall f.bold f.italic f.underline f.code

variable {href : Option String} {base : List OpenElement} {gs : List Glyph} {n : Nesting}

/-- **Segments show their glyphs**, and the elements that were open for the segment before them are
closed. -/
theorem within_renderSegmentsFrom {opened : List String} {segments : List Segment}
    (htags : ∀ tag ∈ opened, tag ∈ formatTags) (hcode : "code" ∉ opened.reverse.tail)
    (hshown : ∀ s ∈ segments, s.IsShown) (h : Within { href } base opened.reverse gs n) :
    Within { href } base [] (gs ++ segments.flatMap (Segment.glyphs href))
      (n.run (renderSegmentsFrom opened segments)) := by
  induction segments generalizing opened gs n with
  | nil =>
    rw [List.flatMap_nil, List.append_nil, renderSegmentsFrom, closeTags]
    rw [← List.append_nil opened.reverse] at h hcode
    exact h.finishAll (fun tag htag => htags tag (List.mem_reverse.mp htag)) hcode
  | cons s segments ih =>
    rw [List.forall_mem_cons] at hshown
    obtain ⟨hlast, hnone⟩ := s.format.code_not_mem_tags
    rw [renderSegmentsFrom]
    set common := commonLength opened s.format.tags with hcommon
    -- what this segment does not share with the one before it is closed
    have hsplit :
        opened.reverse = (opened.drop common).reverse ++ (opened.take common).reverse := by
      rw [← List.reverse_append, List.take_append_drop]
    have hclosed := (hsplit ▸ h).finishAll
      (fun tag htag => htags tag (List.mem_of_mem_drop (List.mem_reverse.mp htag)))
      (hsplit ▸ hcode)
    have hopened := hclosed.startAll (s.format.tags.drop common)
    rw [hcommon, take_commonLength, ← hcommon, ← List.reverse_append, List.take_append_drop]
      at hopened
    rw [List.flatMap_cons, ← List.append_assoc, Nesting.run_append, Nesting.run_append,
      Nesting.run_cons]
    refine ih (fun tag htag => s.format.mem_formatTags htag) hlast hshown.2 ?_
    rw [Segment.glyphs, ← within_tags]
    rcases hshown.1 with ⟨t, ht⟩ | ⟨hbreak, hcode⟩
    · rw [ht]
      exact hopened.text t
    · rw [hbreak]
      exact hopened.lineBreak fun hmem => hnone hcode (List.mem_reverse.mp hmem)

theorem within_renderSegments {segments : List Segment} (hshown : ∀ s ∈ segments, s.IsShown)
    (h : Within { href } base [] gs n) :
    Within { href } base [] (gs ++ segments.flatMap (Segment.glyphs href))
      (n.run (renderSegments segments)) :=
  within_renderSegmentsFrom (List.forall_mem_nil _) List.not_mem_nil hshown h

/-- A link shows what is in it, with its target. -/
theorem within_link {segments : List Segment} (target : String)
    (hshown : ∀ s ∈ segments, s.IsShown) (h : Within {} base [] gs n) :
    Within {} base [] (gs ++ segments.flatMap (Segment.glyphs (some target)))
      (n.run (.start "a" [("href", target)] :: renderSegments segments ++ [.finish "a"])) := by
  let inner : Nesting := ⟨⟨"a", [("href", target)], n.reversed⟩ :: n.opened, []⟩
  have hstart : Within { href := some target } inner.opened [] [] inner := ⟨rfl, rfl⟩
  obtain ⟨hopened, hglyphs⟩ := within_renderSegments hshown hstart
  rw [List.cons_append, Nesting.run_cons, Nesting.run_append]
  change Within {} base [] _ ((inner.run (renderSegments segments)).step (.finish "a"))
  rw [Nesting.step, hopened]
  refine h.push ?_ (fun hhead => absurd hhead (Option.some_ne_none "code").symm)
  rw [List.reverse_cons, nodeGlyphs_append, ← List.nil_append (segments.flatMap _), ← hglyphs]
  exact congrArg _ (List.append_nil _)

/-! ### Paragraphs -/

/-- The pieces that parts of a paragraph are read as, after segments that are not rendered yet. -/
def readParts (pending : List Segment) : List ParagraphPart → List Piece
  | [] => renderSegments pending
  | .run r :: rest => readParts (pending ++ [r.segment false]) rest
  | .hyperlink target runs :: rest =>
    renderSegments pending ++
      .start "a" [("href", Xml.unbroken target)] ::
        renderSegments (runs.map (WrittenRun.segment true)) ++
      .finish "a" :: readParts [] rest

variable {o : Options}

/-- What is written for a formatting shows a text, or a break that is not in code. -/
theorem WrittenRun.IsFormatted.isShown {r : WrittenRun} (h : r.IsFormatted o) (inLink : Bool) :
    (r.segment inLink).IsShown := by
  obtain ⟨f, hf, hbreak⟩ := h
  obtain ⟨properties, content⟩ := r
  obtain rfl := hf
  cases content with
  | text s => exact .inl ⟨_, rfl⟩
  | lineBreak =>
    refine .inr ⟨rfl, ?_⟩
    rw [WrittenRun.segment, format_properties, hbreak rfl]
    rfl

/-- **Parts of a paragraph show their glyphs.** -/
theorem within_readParts {pending : List Segment} {parts : List ParagraphPart}
    (hpending : ∀ s ∈ pending, s.IsShown)
    (hparts : ∀ part ∈ parts, ∀ r ∈ part.runs, r.IsFormatted o) (h : Within {} base [] gs n) :
    Within {} base []
      (gs ++ (pending.flatMap (Segment.glyphs none) ++ parts.flatMap ParagraphPart.glyphs))
      (n.run (readParts pending parts)) := by
  induction parts generalizing pending gs n with
  | nil =>
    rw [List.flatMap_nil, List.append_nil]
    exact within_renderSegments hpending h
  | cons part parts ih =>
    rw [List.forall_mem_cons] at hparts
    obtain ⟨hpart, hparts⟩ := hparts
    rw [List.flatMap_cons]
    cases part with
    | run r =>
      have hr : (r.segment false).IsShown := (hpart r List.mem_cons_self).isShown false
      have hmore := ih (List.forall_mem_append.mpr ⟨hpending, List.forall_mem_singleton.mpr hr⟩)
        hparts h
      rwa [List.flatMap_append, List.flatMap_singleton, List.append_assoc] at hmore
    | hyperlink target runs =>
      have hruns : ∀ s ∈ runs.map (WrittenRun.segment true), s.IsShown :=
        List.forall_mem_map.mpr fun r hr => (hpart r hr).isShown true
      -- what was pending stands in front of the link
      have hbefore := within_renderSegments hpending h
      have hlink := within_link (Xml.unbroken target) hruns hbefore
      have hrest := ih (List.forall_mem_nil _) hparts hlink
      rw [readParts, ParagraphPart.glyphs]
      simp only [List.flatMap_nil, List.nil_append, List.flatMap_map, List.append_assoc,
        ← Nesting.run_append] at hrest
      simpa only [List.append_assoc, List.cons_append, List.nil_append] using hrest

end Interdoc.Docx

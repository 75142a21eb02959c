import Interdoc.Proofs.Html.Building

/-!
# Tokens that open and close elements

What a reader makes of a tag or a character where it may stand: the element is opened in the
innermost, or the innermost is closed if it has the name, and nothing else happens.  There is one
lemma for each group of elements that the rules treat alike.
-/

namespace Interdoc.Html.Builder

variable {b b' : Builder} {n : Nesting} {e : OpenElement} {outer : List OpenElement}
  {reversed : List Node} {token : Token}

/-! ### One token -/

/-- A token is dealt with in the mode of the reader, or in that and one more. -/
def Takes (b : Builder) (token : Token) (b' : Builder) : Prop :=
  ∀ fuel, b.receiveWithin (fuel + 2) token = (b', .done)

/-- No open element is of another vocabulary. -/
theorem Holds.isForeign (h : b.Holds n) (token : Token) : b.isForeign token = false := by
  obtain ⟨opened, reversed⟩ := n
  cases opened with
  | nil =>
    rw [Builder.isForeign, h.stack]
    rfl
  | cons e outer =>
    have hnames := h.draft.names
    rw [stackOf, List.forall₂_cons] at hnames
    rw [Builder.isForeign, h.stack, stackOf]
    simp only [hnames.1]
    rfl

theorem Holds.receiveWithin_succ (h : b.Holds n) (fuel : Nat) (token : Token) :
    b.receiveWithin (fuel + 1) token =
      match b.step b.mode token with
      | (b, .again mode) => receiveWithin fuel (b.goTo mode) token
      | result => result := by
  rw [receiveWithin, h.isForeign]
  rfl

theorem Takes.of_step (h : b.Holds n) (hstep : b.step b.mode token = (b', .done)) :
    b.Takes token b' := by
  intro fuel
  rw [h.receiveWithin_succ, hstep]

theorem Takes.of_again (h : b.Holds n) {between : Builder} {mode : Mode} {m : Nesting}
    (hagain : b.step b.mode token = between.again mode) (hbetween : (between.goTo mode).Holds m)
    (hstep : (between.goTo mode).step mode token = (b', .done)) : b.Takes token b' := by
  intro fuel
  rw [h.receiveWithin_succ, hagain]
  have hnext := hbetween.receiveWithin_succ fuel token
  exact hnext.trans (by rw [show (between.goTo mode).step (between.goTo mode).mode token =
    (b', .done) from hstep])

/-! ### Text -/

/-- Text may stand in the innermost of elements with the given names, as far as tables matter. -/
def AllowsText (tags : List String) : Prop :=
  modeOf tags = .inBody ∨ modeOf tags = .inCell

/-- Formatting that is open is settled. -/
theorem mem_stackOf_of_mem_formattingOf {opened : List OpenElement} {m : Nat} {tag : Tag}
    (h : .element m tag ∈ formattingOf opened) : m ∈ stackOf opened := by
  induction opened with
  | nil => cases h
  | cons e outer ih =>
    rw [formattingOf] at h
    rw [stackOf, List.mem_cons]
    split at h
    · rcases List.mem_cons.mp h with heq | hmem
      · cases heq
      · exact .inr (ih hmem)
    · split at h
      · rcases List.mem_cons.mp h with heq | hmem
        · cases heq
          exact .inl rfl
        · exact .inr (ih hmem)
      · exact .inr (ih h)

/-- Formatting that is open is not opened again. -/
theorem Represents.reopenFormatting (h : b.Represents n) : b.reopenFormatting = b := by
  -- all formatting in force is that of open elements
  have hsettled : ∀ f ∈ b.formatting, b.isSettled f = true := by
    intro f hf
    cases f with
    | mark => rfl
    | element m tag =>
      rw [h.formatting] at hf
      rw [isSettled, h.stack, List.contains_iff_mem]
      exact mem_stackOf_of_mem_formattingOf hf
  have htake : (b.formatting.takeWhile fun f => !b.isSettled f) = [] := by
    cases hcons : b.formatting with
    | nil => rfl
    | cons f rest =>
      rw [List.takeWhile_cons_of_neg]
      rw [hsettled f (hcons ▸ List.mem_cons_self)]
      decide
  have hdrop : (b.formatting.dropWhile fun f => !b.isSettled f) = b.formatting := by
    have happend := List.takeWhile_append_dropWhile (p := fun f => !b.isSettled f)
      (l := b.formatting)
    rwa [htake, List.nil_append] at happend
  rw [Builder.reopenFormatting, htake, hdrop]
  rfl

theorem Holds.refuseFrameset (h : b.Holds n) : b.refuseFrameset.Holds n :=
  ⟨h.draft, h.stack, h.templates, h.templateModes, h.fosters⟩

theorem Represents.refuseFrameset (h : b.Represents n) : b.refuseFrameset.Represents n :=
  ⟨h.toHolds.refuseFrameset, h.formatting, h.mode, h.skips⟩

/-- **A character of a text.** -/
theorem Represents.takes_char (h : b.Represents n) (htext : AllowsText n.tags) (hopened : n.opened ≠ [])
    {c : Char} (hc : c ≠ '\x00') : ∃ b', b.Takes (.char c) b' ∧
      b'.Represents { n with reversed := pushText (String.singleton c) n.reversed } := by
  have hchar {b : Builder} (h : b.Represents n) : (b.insertChar c).Represents
      { n with reversed := pushText (String.singleton c) n.reversed } := by
    obtain ⟨hholds, heq⟩ := h.holds_insertChar hopened c
    refine ⟨hholds, ?_, ?_, ?_⟩
    all_goals rw [heq]
    · exact h.formatting
    · exact h.mode
    · exact h.skips
  -- a character that is not blank also decides that there are no frames
  have hstep : b.step b.mode (.char c) =
      ((if Text.isAsciiBlank c then b else b.refuseFrameset).insertChar c).done := by
    have hbody : b.step b.mode (.char c) = b.inBody (.char c) := by
      rw [h.mode]
      rcases htext with hmode | hmode
      all_goals rw [hmode]; rfl
    rw [hbody, inBody]
    simp only [hc, if_false, h.reopenFormatting]
  refine ⟨_, .of_step h.toHolds hstep, ?_⟩
  split
  · exact hchar h
  · exact hchar h.refuseFrameset

/-! ### Elements outside of tables -/

/-- Where text may stand, a tag that is not for a table is one of the body. -/
theorem Represents.step_start (h : b.Represents n) (htext : AllowsText n.tags) {tag : Tag}
    (hpart : tablePartNames.contains tag.name = false) :
    b.step b.mode (.start tag) = b.startInBody tag := by
  rw [h.mode]
  rcases htext with hmode | hmode
  · rw [hmode]
    rfl
  · rw [hmode, step, inCell]
    simp only [hpart, Bool.false_eq_true, if_false]
    rfl

/-- The names of end tags that have a meaning of their own in a cell. -/
def cellEnds : List String :=
  ["body", "html", "table"] ++ tablePartNames

theorem Represents.step_finish (h : b.Represents n) (htext : AllowsText n.tags) {tag : String}
    (hpart : tag ∉ cellEnds) : b.step b.mode (.finish tag) = b.finishInBody tag := by
  rw [h.mode]
  rcases htext with hmode | hmode
  · rw [hmode]
    rfl
  · rw [hmode, step, inCell]
    simp only [cellEnds, tablePartNames, List.cons_append, List.nil_append, List.mem_cons,
      List.not_mem_nil, or_false, not_or] at hpart
    simp [tablePartNames, hpart, inBody]

/-- The names of the elements that are neither formatting nor parts of a table. -/
def flowTags : List String :=
  ["p", "blockquote", "ul", "ol", "li", "pre", "h1", "h2", "h3", "h4", "h5", "h6"]

theorem flowTags_spec : ∀ tag ∈ flowTags, tag ≠ "template" ∧ cellTags.contains tag = false ∧
    recordedTags.contains tag = false ∧ tag ≠ "tr" ∧ tag ≠ "tbody" ∧ tag ≠ "table" ∧
    tablePartNames.contains tag = false ∧ tag ∉ cellEnds := by
  decide

/-- An element that is neither formatting nor a part of a table is opened. -/
theorem Represents.insert_block (h : b.Represents n) (hskips : b.skipsLineFeed = false) {tag : Tag}
    (htag : tag.name ∈ flowTags) :
    (b.insert tag).Represents ⟨⟨tag.name, tag.attributes, n.reversed⟩ :: n.opened, []⟩ := by
  obtain ⟨htemplate, hcell, hrecorded, hrow, hbody, htable, -, -⟩ := flowTags_spec _ htag
  refine (h.holds_insert _ htemplate).represents ?_ ?_ ?_
  all_goals rw [h.toHolds.insert htemplate]
  · rw [formattingOf_cons_of_not_recorded hcell hrecorded, h.formatting]
  · rw [Nesting.tags, List.map_cons, modeOf_cons_of_ne hcell hrow hbody htable, ← Nesting.tags,
      h.mode]
  · exact hskips

/-- After a token, a reader is as a state of reading says. -/
def Advances (b : Builder) (token : Token) (n : Nesting) : Prop :=
  ∃ b', b.Takes token b' ∧ b'.Represents n

theorem Advances.of_step (h : b.Represents n) {m : Nesting} (hstep : b.step b.mode token = b'.done)
    (hafter : b'.Represents m) : b.Advances token m :=
  ⟨b', .of_step h.toHolds hstep, hafter⟩

variable {tag : String} {attributes : List (String × String)}

/-- The start of a paragraph, a quote or a list. -/
theorem Represents.takes_block (h : b.Represents n) (hskips : b.skipsLineFeed = false)
    (htext : AllowsText n.tags) (hp : "p" ∉ n.tags) (htag : tag ∈ ["p", "blockquote", "ul", "ol"]) :
    b.Advances (.start ⟨tag, attributes, false⟩) (n.step (.start tag attributes)) := by
  have hmem : tag ∈ flowTags := by
    revert htag
    revert tag
    decide
  have hstep : b.startInBody ⟨tag, attributes, false⟩ =
      (b.closeParagraph.insert ⟨tag, attributes, false⟩).done := by
    simp only [List.mem_cons, List.not_mem_nil, or_false] at htag
    rcases htag with rfl | rfl | rfl | rfl <;> rfl
  rw [← h.step_start htext (flowTags_spec _ hmem).2.2.2.2.2.2.1, h.closeParagraph hp] at hstep
  exact .of_step h hstep (h.insert_block hskips hmem)

/-- The names of headings. -/
def headingTags : List String := ["h1", "h2", "h3", "h4", "h5", "h6"]

/-- The start of a heading; it would end a heading that is directly around it. -/
theorem Represents.takes_heading (h : b.Represents ⟨e :: outer, reversed⟩)
    (hskips : b.skipsLineFeed = false) (htext : AllowsText (Nesting.tags ⟨e :: outer, reversed⟩))
    (hp : "p" ∉ Nesting.tags ⟨e :: outer, reversed⟩) (htop : e.tag ∉ headingTags)
    (htag : tag ∈ headingTags) :
    b.Advances (.start ⟨tag, attributes, false⟩)
      (Nesting.step ⟨e :: outer, reversed⟩ (.start tag attributes)) := by
  have hmem : tag ∈ flowTags := by
    revert htag
    revert tag
    decide
  have hcurrent : b.currentIs .isHeading = false := by
    rw [h.currentIs]
    simpa [Category.isHeading, Category.isAmong, headingTags] using htop
  have hstep : b.startInBody ⟨tag, attributes, false⟩ =
      (let b := b.closeParagraph
       ((if b.currentIs .isHeading then b.pop else b).insert ⟨tag, attributes, false⟩).done) := by
    simp only [headingTags, List.mem_cons, List.not_mem_nil, or_false] at htag
    rcases htag with rfl | rfl | rfl | rfl | rfl | rfl <;> rfl
  rw [← h.step_start htext (flowTags_spec _ hmem).2.2.2.2.2.2.1, h.closeParagraph hp] at hstep
  simp only [hcurrent, Bool.false_eq_true, if_false] at hstep
  exact .of_step h hstep (h.insert_block hskips hmem)

/-- The start of an item directly in a list. -/
theorem Represents.takes_item (h : b.Represents ⟨e :: outer, reversed⟩)
    (hskips : b.skipsLineFeed = false) (htext : AllowsText (Nesting.tags ⟨e :: outer, reversed⟩))
    (hp : "p" ∉ Nesting.tags ⟨e :: outer, reversed⟩) (htop : e.tag = "ul" ∨ e.tag = "ol") :
    b.Advances (.start ⟨"li", attributes, false⟩)
      (Nesting.step ⟨e :: outer, reversed⟩ (.start "li" attributes)) := by
  have hrefused := h.refuseFrameset
  -- the list around it stops the search for an item to close
  have hitem : b.refuseFrameset.closeItem ["li"] = b.refuseFrameset := by
    have hname := hrefused.draft.names
    rw [stackOf, List.forall₂_cons] at hname
    rw [closeItem, hrefused.stack, stackOf, List.find?_cons_of_pos]
    · rw [Option.bind_some, hname.1]
      rcases htop with htop | htop <;> simp [htop, Category.isAmong]
    · rw [hrefused.satisfies_top]
      rcases htop with htop | htop <;> rw [htop] <;> rfl
  have hstep : b.step b.mode (.start ⟨"li", attributes, false⟩) =
      (((b.refuseFrameset.closeItem ["li"]).closeParagraph).insert ⟨"li", attributes, false⟩).done :=
    (h.step_start htext rfl).trans rfl
  rw [hitem, hrefused.closeParagraph hp] at hstep
  exact .of_step h hstep (hrefused.insert_block hskips (show "li" ∈ flowTags by decide))

/-- The start of a preformatted text; a line feed directly behind it would be dropped. -/
theorem Represents.takes_pre (h : b.Represents n) (hskips : b.skipsLineFeed = false)
    (htext : AllowsText n.tags) (hp : "p" ∉ n.tags) :
    b.Advances (.start ⟨"pre", attributes, false⟩) (n.step (.start "pre" attributes)) := by
  have hstep : b.step b.mode (.start ⟨"pre", attributes, false⟩) =
      ({ (b.closeParagraph.insert ⟨"pre", attributes, false⟩).refuseFrameset with
        skipsLineFeed := true } : Builder).done :=
    (h.step_start htext rfl).trans rfl
  rw [h.closeParagraph hp] at hstep
  have hafter : (b.insert ⟨"pre", attributes, false⟩).Represents
      (n.step (.start "pre" attributes)) :=
    h.insert_block hskips (show "pre" ∈ flowTags by decide)
  exact .of_step h hstep ⟨⟨hafter.draft, hafter.stack, hafter.templates, hafter.templateModes,
    hafter.fosters⟩, hafter.formatting, hafter.mode, fun _ => rfl⟩

/-! ### Elements without content -/

/-- An element without content is put. -/
theorem Represents.insertVoid (h : b.Represents n) {tag : Tag} (htag : tag.name ≠ "template") :
    (b.insertVoid tag).refuseFrameset.Represents (n.step (.void tag.name tag.attributes)) := by
  refine ⟨(h.holds_insertVoid htag).refuseFrameset, ?_, ?_, ?_⟩
  all_goals rw [Builder.refuseFrameset, Builder.insertVoid, h.toHolds.insertElement htag]
  · exact h.formatting
  · exact h.mode
  · exact h.skips

/-- A rule. -/
theorem Represents.takes_rule (h : b.Represents n) (htext : AllowsText n.tags)
    (hp : "p" ∉ n.tags) :
    b.Advances (.start ⟨"hr", attributes, false⟩) (n.step (.void "hr" attributes)) := by
  have hstep : b.step b.mode (.start ⟨"hr", attributes, false⟩) =
      (b.closeParagraph.insertVoid ⟨"hr", attributes, false⟩).refuseFrameset.done :=
    (h.step_start htext rfl).trans rfl
  rw [h.closeParagraph hp] at hstep
  exact .of_step h hstep (h.insertVoid (show "hr" ≠ "template" by decide))

/-- A line break or an image. -/
theorem Represents.takes_void (h : b.Represents n) (htext : AllowsText n.tags)
    (htag : tag = "br" ∨ tag = "img") :
    b.Advances (.start ⟨tag, attributes, false⟩) (n.step (.void tag attributes)) := by
  have hstep : b.step b.mode (.start ⟨tag, attributes, false⟩) =
      (b.reopenFormatting.insertVoid ⟨tag, attributes, false⟩).refuseFrameset.done := by
    rcases htag with rfl | rfl <;> exact (h.step_start htext rfl).trans rfl
  rw [h.reopenFormatting] at hstep
  refine .of_step h hstep (h.insertVoid ?_)
  rcases htag with rfl | rfl <;> simp

/-! ### Formatting -/

/-- The names of the formatting elements that pieces are written with. -/
def phraseTags : List String := ["a", "strong", "em", "u", "code"]

/-- The formatting in force since the last cell is that of open elements. -/
theorem exists_mem_of_mem_sinceMark {opened : List OpenElement} {m : Nat} {tag : Tag}
    (h : (m, tag) ∈ Formatting.sinceMark (formattingOf opened)) : tag.name ∈ opened.map (·.tag) := by
  induction opened with
  | nil => cases h
  | cons e outer ih =>
    rw [List.map_cons, List.mem_cons]
    rw [formattingOf] at h
    split at h
    · cases h
    · split at h
      · rcases List.mem_cons.mp h with heq | hmem
        · cases heq
          exact .inl rfl
        · exact .inr (ih hmem)
      · exact .inr (ih h)

/-- Formatting that is not in force is opened. -/
theorem Represents.openFormatting (h : b.Represents n) (hskips : b.skipsLineFeed = false)
    (hrecorded : tag ∈ recordedTags) (hnew : tag ∉ n.tags) :
    (b.openFormatting ⟨tag, attributes, false⟩).Represents (n.step (.start tag attributes)) := by
  have hspec : ∀ tag ∈ recordedTags, tag ≠ "template" ∧ cellTags.contains tag = false ∧
      recordedTags.contains tag = true ∧ tag ≠ "tr" ∧ tag ≠ "tbody" ∧ tag ≠ "table" := by
    decide
  obtain ⟨htemplate, hcell, hcontains, hrow, hbody, htable⟩ := hspec tag hrecorded
  -- the same element cannot be open three times, for it is not open at all
  have hsame : (Formatting.sinceMark b.formatting).filter
      (fun e => Formatting.sameTag e.2 ⟨tag, attributes, false⟩) = [] := by
    rw [List.filter_eq_nil_iff, h.formatting]
    intro entry hentry hsame
    rw [Formatting.sameTag, Bool.and_eq_true, Bool.and_eq_true, beq_iff_eq] at hsame
    have hname : entry.2.name = tag := hsame.1.1
    exact hnew (hname ▸ exists_mem_of_mem_sinceMark hentry)
  have hnumber : (b.openElement .html ⟨tag, attributes, false⟩).1 =
      topOf (⟨tag, attributes, n.reversed⟩ :: n.opened) := by
    rw [openElement, h.toHolds.insertElement htemplate, topOf, ← h.draft.size]
  have hholds := (h.holds_insert ⟨tag, attributes, false⟩ htemplate).withFormatting
  rw [Builder.openFormatting, hsame]
  simp only [List.getLast?_nil]
  refine (hholds _).represents ?_ ?_ ?_
  · rw [formattingOf_cons_of_recorded hcell hcontains]
    simp only [hnumber, ← h.formatting]
    rw [openElement, h.toHolds.insertElement htemplate]
  · rw [Nesting.tags, List.map_cons, modeOf_cons_of_ne hcell hrow hbody htable, ← Nesting.tags]
    change (b.insert _).mode = _
    rw [h.toHolds.insert htemplate, h.mode]
  · change (b.insert _).skipsLineFeed = _
    rw [h.toHolds.insert htemplate, hskips]

/-- The start of formatting that is not in force. -/
theorem Represents.takes_formatting (h : b.Represents n) (hskips : b.skipsLineFeed = false)
    (htext : AllowsText n.tags) (htag : tag ∈ ["strong", "em", "u", "code"]) (hnew : tag ∉ n.tags) :
    b.Advances (.start ⟨tag, attributes, false⟩) (n.step (.start tag attributes)) := by
  have hrecorded : tag ∈ recordedTags := by
    clear hnew
    revert htag
    revert tag
    decide
  have hstep : b.step b.mode (.start ⟨tag, attributes, false⟩) =
      (b.reopenFormatting.openFormatting ⟨tag, attributes, false⟩).done := by
    clear hnew hrecorded
    simp only [List.mem_cons, List.not_mem_nil, or_false] at htag
    rcases htag with rfl | rfl | rfl | rfl <;> exact (h.step_start htext rfl).trans rfl
  rw [h.reopenFormatting] at hstep
  exact .of_step h hstep (h.openFormatting hskips hrecorded hnew)

/-- The start of a link outside of links. -/
theorem Represents.takes_link (h : b.Represents n) (hskips : b.skipsLineFeed = false)
    (htext : AllowsText n.tags) (hnew : "a" ∉ n.tags) :
    b.Advances (.start ⟨"a", attributes, false⟩) (n.step (.start "a" attributes)) := by
  have hnone : (Formatting.sinceMark b.formatting).find? (fun e => e.2.name == "a") = none := by
    rw [List.find?_eq_none, h.formatting]
    intro entry hentry hname
    rw [beq_iff_eq] at hname
    exact hnew (hname ▸ exists_mem_of_mem_sinceMark hentry)
  have hstep : b.step b.mode (.start ⟨"a", attributes, false⟩) =
      (b.openLink ⟨"a", attributes, false⟩).done :=
    (h.step_start htext rfl).trans rfl
  rw [openLink, hnone] at hstep
  simp only [h.reopenFormatting] at hstep
  exact .of_step h hstep (h.openFormatting hskips (by decide) hnew)

/-! ### Ends of blocks -/

/-- The end of an element that is not a table. -/
theorem step_finish_of_ne (h : e.tag ≠ "table") (tag : String) :
    Nesting.step ⟨e :: outer, reversed⟩ (.finish tag) =
      ⟨outer, .element e.tag e.attributes reversed.reverse :: e.before⟩ := by
  simp [Nesting.step, childrenOf, h]

theorem Represents.pop_block (h : b.Represents ⟨e :: outer, reversed⟩)
    (hskips : b.skipsLineFeed = false) (htag : e.tag ∈ flowTags) :
    b.pop.Represents (Nesting.step ⟨e :: outer, reversed⟩ (.finish e.tag)) := by
  obtain ⟨-, hcell, hrecorded, hrow, hbody, htable, -, -⟩ := flowTags_spec _ htag
  rw [step_finish_of_ne htable]
  exact h.holds_pop.represents
    (h.formatting.trans (formattingOf_cons_of_not_recorded hcell hrecorded))
    (h.mode.trans (modeOf_cons_of_ne hcell hrow hbody htable _)) hskips

/-- The end of a paragraph. -/
theorem Represents.takes_paragraph_end (h : b.Represents ⟨e :: outer, reversed⟩)
    (hskips : b.skipsLineFeed = false) (htext : AllowsText (Nesting.tags ⟨e :: outer, reversed⟩))
    (htag : e.tag = "p") :
    b.Advances (.finish "p") (Nesting.step ⟨e :: outer, reversed⟩ (.finish "p")) := by
  have htop : Category.isHtml "p" ⟨.html, e.tag⟩ = true := by
    rw [htag]
    rfl
  have himplied : b.closeImpliedExcept "p" = b := by
    refine h.closeImplied ?_
    rw [htag]
    rfl
  have hclose : b.closeParagraph = b.pop := by
    rw [closeParagraph, h.inScope_top htop, if_pos rfl, himplied, h.closeTo htop]
  have hstep : b.step b.mode (.finish "p") =
      (if b.inScope .boundsButtonScope (.isHtml "p") then b
        else b.insertImplied "p").closeParagraph.done :=
    (h.step_finish htext (by decide)).trans rfl
  rw [h.inScope_top htop, if_pos rfl, hclose] at hstep
  exact .of_step h hstep (h.pop_block hskips (htag ▸ by decide))

/-- The end of a quote, a list or a preformatted text. -/
theorem Represents.takes_container_end (h : b.Represents ⟨e :: outer, reversed⟩)
    (hskips : b.skipsLineFeed = false) (htext : AllowsText (Nesting.tags ⟨e :: outer, reversed⟩))
    (htag : e.tag ∈ ["blockquote", "ul", "ol", "pre"]) :
    b.Advances (.finish e.tag) (Nesting.step ⟨e :: outer, reversed⟩ (.finish e.tag)) := by
  have hspec : ∀ tag ∈ ["blockquote", "ul", "ol", "pre"], tag ∈ flowTags ∧
      Category.mayEnd ⟨.html, tag⟩ = false ∧ tag ∉ cellEnds := by
    decide
  obtain ⟨hmem, hend, hpart⟩ := hspec _ htag
  have hfinish : b.finishInBody e.tag =
      (if b.inScope .boundsScope (.isHtml e.tag) then b.closeElement e.tag else b).done := by
    generalize e.tag = tag at htag
    simp only [List.mem_cons, List.not_mem_nil, or_false] at htag
    rcases htag with rfl | rfl | rfl | rfl <;> rfl
  have hstep : b.step b.mode (.finish e.tag) = b.pop.done := by
    rw [h.step_finish htext hpart, hfinish, h.inScope_top (by simp [Category.isHtml]), if_pos rfl,
      h.closeElement hend]
  exact .of_step h hstep (h.pop_block hskips hmem)

/-- The end of an item. -/
theorem Represents.takes_item_end (h : b.Represents ⟨e :: outer, reversed⟩)
    (hskips : b.skipsLineFeed = false) (htext : AllowsText (Nesting.tags ⟨e :: outer, reversed⟩))
    (htag : e.tag = "li") :
    b.Advances (.finish "li") (Nesting.step ⟨e :: outer, reversed⟩ (.finish "li")) := by
  have htop : Category.isHtml "li" ⟨.html, e.tag⟩ = true := by
    rw [htag]
    rfl
  have himplied : b.closeImpliedExcept "li" = b := by
    refine h.closeImplied ?_
    rw [htag]
    rfl
  have hstep : b.step b.mode (.finish "li") =
      (if b.inScope .boundsItemScope (.isHtml "li") then
        (b.closeImpliedExcept "li").closeTo (.isHtml "li") else b).done :=
    (h.step_finish htext (by decide)).trans rfl
  rw [h.inScope_top htop, if_pos rfl, himplied, h.closeTo htop] at hstep
  exact .of_step h hstep (h.pop_block hskips (htag ▸ by decide))

/-- The end of a heading. -/
theorem Represents.takes_heading_end (h : b.Represents ⟨e :: outer, reversed⟩)
    (hskips : b.skipsLineFeed = false) (htext : AllowsText (Nesting.tags ⟨e :: outer, reversed⟩))
    (htag : e.tag ∈ headingTags) :
    b.Advances (.finish e.tag) (Nesting.step ⟨e :: outer, reversed⟩ (.finish e.tag)) := by
  have hspec : ∀ tag ∈ headingTags, tag ∈ flowTags ∧ Category.mayEnd ⟨.html, tag⟩ = false ∧
      Category.isHeading ⟨.html, tag⟩ = true ∧ tag ∉ cellEnds := by
    decide
  obtain ⟨hmem, hend, hheading, hpart⟩ := hspec _ htag
  have hfinish : b.finishInBody e.tag =
      (if b.inScope .boundsScope .isHeading then (b.closeImplied .mayEnd).closeTo .isHeading
        else b).done := by
    generalize e.tag = tag at htag
    simp only [headingTags, List.mem_cons, List.not_mem_nil, or_false] at htag
    rcases htag with rfl | rfl | rfl | rfl | rfl | rfl <;> rfl
  have hstep : b.step b.mode (.finish e.tag) = b.pop.done := by
    rw [h.step_finish htext hpart, hfinish, h.inScope_top hheading, if_pos rfl,
      h.closeImplied hend, h.closeTo hheading]
  exact .of_step h hstep (h.pop_block hskips hmem)

/-- **The end of an element that is neither formatting nor a part of a table.** -/
theorem Represents.takes_block_end (h : b.Represents ⟨e :: outer, reversed⟩)
    (hskips : b.skipsLineFeed = false) (htext : AllowsText (Nesting.tags ⟨e :: outer, reversed⟩))
    (htag : e.tag ∈ flowTags) :
    b.Advances (.finish e.tag) (Nesting.step ⟨e :: outer, reversed⟩ (.finish e.tag)) := by
  have hsplit : ∀ tag ∈ flowTags, tag = "p" ∨ tag = "li" ∨
      tag ∈ ["blockquote", "ul", "ol", "pre"] ∨ tag ∈ headingTags := by
    decide
  rcases hsplit _ htag with hp | hitem | hcontainer | hheading
  · rw [hp]
    exact h.takes_paragraph_end hskips htext hp
  · rw [hitem]
    exact h.takes_item_end hskips htext hitem
  · exact h.takes_container_end hskips htext hcontainer
  · exact h.takes_heading_end hskips htext hheading

/-! ### Ends of formatting -/

/-- The formatting in force but the innermost. -/
theorem filter_formattingOf (e : OpenElement) (outer : List OpenElement) :
    (formattingOf outer).filter (fun f => !f.isFor (topOf (e :: outer))) = formattingOf outer := by
  rw [List.filter_eq_self]
  intro f hf
  cases f with
  | mark => rfl
  | element m tag =>
    have hlt := Nat.lt_of_le_of_lt (le_topOf_of_mem_formattingOf hf) (topOf_lt e outer)
    simp [Formatting.isFor, Nat.ne_of_lt hlt]

/-- **Formatting that is innermost is closed without being opened again.** -/
theorem Represents.closeFormatting (h : b.Represents ⟨e :: outer, reversed⟩)
    (hformatting : b.formatting =
      .element (topOf (e :: outer)) ⟨e.tag, e.attributes, false⟩ :: formattingOf outer) :
    b.closeFormatting e.tag = b.pop.dropFormatting (topOf (e :: outer)) := by
  have hnamed : b.satisfies (.isHtml e.tag) (topOf (e :: outer)) = true := by
    rw [h.satisfies_top]
    simp [Category.isHtml]
  have hstack : b.stack = topOf (e :: outer) :: stackOf outer := h.stack
  generalize topOf (e :: outer) = top at *
  have hany : b.formatting.any (·.isFor top) = true := by
    rw [hformatting, List.any_cons, Formatting.isFor, beq_self_eq_true, Bool.true_or]
  have hfind : (Formatting.sinceMark b.formatting).find? (fun entry => entry.2.name == e.tag) =
      some (top, ⟨e.tag, e.attributes, false⟩) := by
    rw [hformatting, Formatting.sinceMark, List.find?_cons_of_pos (by simp)]
  have hopen : b.stack.contains top = true := by
    rw [hstack, List.contains_cons, beq_self_eq_true, Bool.true_or]
  have hscope : b.nodeInScope top = true := by
    rw [nodeInScope, hstack, inScopeAmong, beq_self_eq_true, Bool.true_or]
  -- nothing is open inside of it, so there is nothing to move out
  have htake : b.stack.takeWhile (· != top) = [] := by
    rw [hstack, List.takeWhile_cons_of_neg (by simp)]
  have hdrop : b.stack.dropWhile (· != top) = b.stack := by
    rw [hstack, List.dropWhile_cons_of_neg (by simp)]
  have hwithin : b.closeFormattingWithin 8 e.tag = b.pop.dropFormatting top := by
    rw [closeFormattingWithin]
    simp only [hfind, hopen, hscope, htake, hdrop, Bool.not_true, Bool.false_eq_true, if_false,
      List.filter_nil, List.getLast?_nil]
    rfl
  rw [Builder.closeFormatting, hstack]
  simp only [hnamed, hany, Bool.not_true, Bool.and_false, Bool.false_eq_true, if_false, hwithin]

/-- **The end of formatting** takes it out of force. -/
theorem Represents.takes_formatting_end (h : b.Represents ⟨e :: outer, reversed⟩)
    (hskips : b.skipsLineFeed = false) (htext : AllowsText (Nesting.tags ⟨e :: outer, reversed⟩))
    (htag : e.tag ∈ phraseTags) :
    b.Advances (.finish e.tag) (Nesting.step ⟨e :: outer, reversed⟩ (.finish e.tag)) := by
  have hspec : ∀ tag ∈ phraseTags, cellTags.contains tag = false ∧
      recordedTags.contains tag = true ∧ tag ≠ "tr" ∧ tag ≠ "tbody" ∧ tag ≠ "table" ∧
      tag ∉ cellEnds := by
    decide
  obtain ⟨hcell, hcontains, hrow, hbody, htable, hpart⟩ := hspec _ htag
  have hfinish : b.finishInBody e.tag = (b.closeFormatting e.tag).done := by
    generalize e.tag = tag at htag
    simp only [phraseTags, List.mem_cons, List.not_mem_nil, or_false] at htag
    rcases htag with rfl | rfl | rfl | rfl | rfl <;> rfl
  have hformatting : b.formatting =
      .element (topOf (e :: outer)) ⟨e.tag, e.attributes, false⟩ :: formattingOf outer :=
    h.formatting.trans (formattingOf_cons_of_recorded hcell hcontains)
  have hstep : b.step b.mode (.finish e.tag) =
      (b.pop.dropFormatting (topOf (e :: outer))).done := by
    rw [h.step_finish htext hpart, hfinish, h.closeFormatting hformatting]
  refine .of_step h hstep ?_
  rw [step_finish_of_ne htable]
  refine (h.holds_pop.withFormatting _).represents ?_
    (h.mode.trans (modeOf_cons_of_ne hcell hrow hbody htable _)) hskips
  change b.formatting.filter _ = _
  rw [hformatting, List.filter_cons_of_neg (by simp [Formatting.isFor]), filter_formattingOf]

end Interdoc.Html.Builder

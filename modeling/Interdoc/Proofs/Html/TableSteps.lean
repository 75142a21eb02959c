import Interdoc.Proofs.Html.TreeSteps

/-!
# Tokens of tables

A row directly in a table opens a row group that no tag mentions; further rows find it open, and the
end of the table closes it.  A cell is marked in the formatting in force, so that its content cannot
close formatting outside of it, and text may stand in it as in the body.
-/

namespace Interdoc.Html.Builder

variable {b b' : Builder} {n : Nesting} {e : OpenElement} {outer : List OpenElement}
  {reversed : List Node} {tag : String} {attributes : List (String × String)}

/-- The names of the elements around all others. -/
def bodyTags : List String := ["body", "html"]

/-- The names of the parts of tables that hold no text. -/
def partTags : List String := ["table", "tbody", "tr"]

/-- A part of a table is opened. -/
theorem Represents.insert_part (h : b.Represents n) (hskips : b.skipsLineFeed = false) (tag : Tag)
    (htag : tag.name ∈ partTags) :
    ((b.insert tag).goTo (modeOf [tag.name])).Represents
      ⟨⟨tag.name, tag.attributes, n.reversed⟩ :: n.opened, []⟩ := by
  have hspec : ∀ tag ∈ partTags, tag ≠ "template" ∧ cellTags.contains tag = false ∧
      recordedTags.contains tag = false ∧
      (tag = "tr" ∨ tag = "tbody" ∨ tag = "table") := by
    decide
  obtain ⟨htemplate, hcell, hrecorded, hpart⟩ := hspec _ htag
  refine ((h.holds_insert tag htemplate).goTo _).represents ?_ ?_ ?_
  · rw [goTo, h.toHolds.insert htemplate, formattingOf_cons_of_not_recorded hcell hrecorded]
    exact h.formatting
  · change modeOf [tag.name] = modeOf (tag.name :: _)
    rcases hpart with htag | htag | htag
    all_goals rw [htag]; rfl
  · rw [goTo, h.toHolds.insert htemplate]
    exact hskips

/-! ### Opening -/

/-- The start of a table. -/
theorem Represents.takes_table (h : b.Represents n) (hskips : b.skipsLineFeed = false)
    (htext : AllowsText n.tags) (hp : "p" ∉ n.tags) :
    b.Advances (.start ⟨"table", attributes, false⟩) (n.step (.start "table" attributes)) := by
  have hstep : b.step b.mode (.start ⟨"table", attributes, false⟩) =
      (let b := if b.isOld then b else b.closeParagraph
       ((b.insert ⟨"table", attributes, false⟩).refuseFrameset.goTo .inTable).done) :=
    (h.step_start htext rfl).trans rfl
  rw [h.closeParagraph hp, ite_self] at hstep
  have hafter := h.insert_part hskips ⟨"table", attributes, false⟩
    (show "table" ∈ partTags by decide)
  exact .of_step h hstep hafter.refuseFrameset

/-- The start of a row in a row group. -/
theorem Represents.step_row (h : b.Represents ⟨e :: outer, reversed⟩) (htop : e.tag = "tbody")
    (attributes : List (String × String)) :
    b.step .inTableBody (.start ⟨"tr", attributes, false⟩) =
      ((b.insert ⟨"tr", attributes, false⟩).goTo .inRow).done := by
  have hclose : b.closeInside .isTableBodyContext = b := by
    refine h.closeInside ?_
    rw [htop]
    rfl
  have hstep : b.step .inTableBody (.start ⟨"tr", attributes, false⟩) =
      (((b.closeInside .isTableBodyContext).insert ⟨"tr", attributes, false⟩).goTo .inRow).done :=
    rfl
  rwa [hclose] at hstep

theorem Represents.takes_row (h : b.Represents ⟨e :: outer, reversed⟩)
    (hskips : b.skipsLineFeed = false) (htop : e.tag = "tbody") :
    b.Advances (.start ⟨"tr", attributes, false⟩)
      (Nesting.step ⟨e :: outer, reversed⟩ (.start "tr" attributes)) := by
  have hmode : b.mode = .inTableBody := h.mode_of_tag htop
  have hstep := h.step_row htop attributes
  rw [← hmode] at hstep
  exact .of_step h hstep (h.insert_part hskips ⟨"tr", attributes, false⟩
    (show "tr" ∈ partTags by decide))

/-- The start of a row directly in a table is read as in a row group that has just been opened. -/
theorem Represents.takes_firstRow (h : b.Represents ⟨e :: outer, reversed⟩)
    (hskips : b.skipsLineFeed = false) (htop : e.tag = "table") :
    ∃ group : Builder, group.Represents ⟨⟨"tbody", [], reversed⟩ :: e :: outer, []⟩ ∧
      group.skipsLineFeed = false ∧ ∀ attributes, ∃ b',
        group.Takes (.start ⟨"tr", attributes, false⟩) b' ∧
        b.Takes (.start ⟨"tr", attributes, false⟩) b' := by
  have hmode : b.mode = .inTable := h.mode_of_tag htop
  have hclose : b.closeInside .isTableContext = b := by
    refine h.closeInside ?_
    rw [htop]
    rfl
  -- the group is opened without a tag, and sees the same token again
  have hgroup : ((b.insertImplied "tbody").goTo .inTableBody).Represents
      ⟨⟨"tbody", [], reversed⟩ :: e :: outer, []⟩ :=
    h.insert_part hskips ⟨"tbody", [], false⟩ (show "tbody" ∈ partTags by decide)
  refine ⟨_, hgroup, ?_, fun attributes => ?_⟩
  · rw [goTo, insertImplied, h.toHolds.insert (show "tbody" ≠ "template" by decide)]
    exact hskips
  · have hagain : b.step .inTable (.start ⟨"tr", attributes, false⟩) =
        ((b.closeInside .isTableContext).insertImplied "tbody").again .inTableBody := rfl
    rw [hclose, ← hmode] at hagain
    have hrow := hgroup.step_row rfl attributes
    exact ⟨_, .of_step hgroup.toHolds hrow, .of_again h.toHolds hagain hgroup.toHolds hrow⟩

/-- The start of a cell. -/
theorem Represents.takes_cell (h : b.Represents ⟨e :: outer, reversed⟩)
    (hskips : b.skipsLineFeed = false) (htop : e.tag = "tr") (htag : tag ∈ cellTags) :
    b.Advances (.start ⟨tag, attributes, false⟩)
      (Nesting.step ⟨e :: outer, reversed⟩ (.start tag attributes)) := by
  have hspec : ∀ tag ∈ cellTags, tag ≠ "template" ∧ cellTags.contains tag = true := by decide
  obtain ⟨htemplate, hcell⟩ := hspec tag htag
  have hmode : b.mode = .inRow := h.mode_of_tag htop
  have hclose : b.closeInside .isTableRowContext = b := by
    refine h.closeInside ?_
    rw [htop]
    rfl
  have hstep : b.step .inRow (.start ⟨tag, attributes, false⟩) =
      (((b.closeInside .isTableRowContext).insert
        ⟨tag, attributes, false⟩).markFormatting.goTo .inCell).done := by
    clear htemplate hcell
    simp only [cellTags, List.mem_cons, List.not_mem_nil, or_false] at htag
    rcases htag with rfl | rfl <;> rfl
  rw [hclose, ← hmode] at hstep
  have hholds := (h.holds_insert ⟨tag, attributes, false⟩ htemplate).withFormatting
  refine .of_step h hstep (((hholds _).goTo .inCell).represents ?_ ?_ ?_)
  · change Formatting.mark :: (b.insert _).formatting = _
    rw [h.toHolds.insert htemplate, formattingOf_cons_of_cell hcell, ← h.formatting]
  · exact (if_pos hcell).symm
  · change (b.insert _).skipsLineFeed = _
    rw [h.toHolds.insert htemplate, hskips]

/-! ### Closing -/

/-- The end of a cell takes its mark from the formatting in force. -/
theorem Represents.takes_cell_end (h : b.Represents ⟨e :: outer, reversed⟩)
    (hskips : b.skipsLineFeed = false) (htag : e.tag ∈ cellTags)
    (houter : modeOf (outer.map (·.tag)) = .inRow) :
    b.Advances (.finish e.tag) (Nesting.step ⟨e :: outer, reversed⟩ (.finish e.tag)) := by
  have hspec : ∀ tag ∈ cellTags, cellTags.contains tag = true ∧ tag ≠ "table" ∧
      Category.mayEnd ⟨.html, tag⟩ = false := by
    decide
  obtain ⟨hcell, htable, hend⟩ := hspec _ htag
  have hmode : b.mode = .inCell := by
    rw [h.mode, Nesting.tags, List.map_cons, modeOf, if_pos hcell]
  have hfinish : b.step .inCell (.finish e.tag) =
      (if b.inScope .boundsTableScope (.isHtml e.tag) then
        (b.closeElement e.tag).clearFormatting.goTo .inRow else b).done := by
    generalize e.tag = tag at htag
    simp only [cellTags, List.mem_cons, List.not_mem_nil, or_false] at htag
    rcases htag with rfl | rfl <;> rfl
  -- the cell is innermost, so nothing is closed with it
  have hstep : b.step b.mode (.finish e.tag) = (b.pop.clearFormatting.goTo .inRow).done := by
    rw [hmode, hfinish, h.inScope_top (by simp [Category.isHtml]), if_pos rfl, h.closeElement hend]
  refine .of_step h hstep ?_
  rw [step_finish_of_ne htable]
  refine ((h.holds_pop.withFormatting _).goTo .inRow).represents ?_ houter.symm hskips
  have hformatting := h.formatting.trans (formattingOf_cons_of_cell hcell)
  change (b.formatting.dropWhile _).drop 1 = _
  rw [hformatting]
  rfl

/-- A part of a table after it was closed. -/
theorem Represents.pop_part (h : b.Represents ⟨e :: outer, reversed⟩)
    (hskips : b.skipsLineFeed = false) (htag : e.tag ∈ partTags) :
    (b.pop.goTo (modeOf (outer.map (·.tag)))).Represents
      ⟨outer, .element e.tag e.attributes reversed.reverse :: e.before⟩ := by
  have hspec : ∀ tag ∈ partTags, cellTags.contains tag = false ∧
      recordedTags.contains tag = false := by
    decide
  obtain ⟨hcell, hrecorded⟩ := hspec _ htag
  exact (h.holds_pop.goTo _).represents
    (h.formatting.trans (formattingOf_cons_of_not_recorded hcell hrecorded)) rfl hskips

/-- The end of a row in a row group. -/
theorem Represents.takes_row_end (h : b.Represents ⟨e :: outer, reversed⟩)
    (hskips : b.skipsLineFeed = false) (htag : e.tag = "tr")
    (houter : modeOf (outer.map (·.tag)) = .inTableBody) :
    b.Advances (.finish "tr") (Nesting.step ⟨e :: outer, reversed⟩ (.finish "tr")) := by
  have hmode : b.mode = .inRow := h.mode_of_tag htag
  have hclose : b.closeInside .isTableRowContext = b := by
    refine h.closeInside ?_
    rw [htag]
    rfl
  have hfinish : b.step .inRow (.finish "tr") =
      (if b.inScope .boundsTableScope (.isHtml "tr") then
        (b.closeInside .isTableRowContext).pop.goTo .inTableBody else b).done := rfl
  have hstep : b.step b.mode (.finish "tr") = (b.pop.goTo .inTableBody).done := by
    rw [hmode, hfinish, h.inScope_top (by simp [Category.isHtml, htag]), if_pos rfl, hclose]
  refine .of_step h hstep ?_
  have hafter := h.pop_part hskips (htag ▸ by decide)
  rw [houter] at hafter
  rw [step_finish_of_ne (by rw [htag]; decide)]
  exact hafter

/-- In the body itself, the mode that the open elements ask for is that of the body. -/
theorem Holds.properMode (h : b.Holds n) (htags : n.tags = bodyTags) : b.properMode = .inBody := by
  obtain ⟨opened, reversed⟩ := n
  obtain ⟨body, outer, rfl, hbody, houter⟩ := List.map_eq_cons_iff.mp htags
  obtain ⟨html, outer, rfl, -, -⟩ := List.map_eq_cons_iff.mp houter
  rw [Builder.properMode, h.stack, stackOf, stackOf, modeAmong]
  simp [h.satisfies_top, hbody, Category.isHtml, Category.isCell, Category.isAmong]

/-- The end of a table without rows. -/
theorem Represents.step_table_end (h : b.Represents ⟨e :: outer, reversed⟩) (htag : e.tag = "table")
    (houter : outer.map (·.tag) = bodyTags) :
    b.step .inTable (.finish "table") = (b.pop.goTo .inBody).done := by
  have htop : Category.isHtml "table" ⟨.html, e.tag⟩ = true := by
    rw [htag]
    rfl
  have hfinish : b.step .inTable (.finish "table") =
      (if b.inScope .boundsTableScope (.isHtml "table") then
        let b := b.closeTo (.isHtml "table")
        (b.goTo b.properMode).done
      else b.done) := rfl
  rw [hfinish, h.inScope_top htop, if_pos rfl, h.closeTo htop]
  simp only [h.holds_pop.properMode houter]

theorem Represents.takes_emptyTable_end (h : b.Represents ⟨e :: outer, reversed⟩)
    (hskips : b.skipsLineFeed = false) (htag : e.tag = "table")
    (houter : outer.map (·.tag) = bodyTags) :
    b.Advances (.finish "table")
      ⟨outer, .element e.tag e.attributes reversed.reverse :: e.before⟩ := by
  have hmode : b.mode = .inTable := h.mode_of_tag htag
  have hstep := h.step_table_end htag houter
  rw [← hmode] at hstep
  have hafter := h.pop_part hskips (htag ▸ by decide)
  rw [houter] at hafter
  exact .of_step h hstep hafter

/-- The end of a table closes the row group. -/
theorem Represents.takes_table_end {table : OpenElement}
    (h : b.Represents ⟨e :: table :: outer, reversed⟩) (hskips : b.skipsLineFeed = false)
    (htag : e.tag = "tbody") (htable : table.tag = "table")
    (houter : outer.map (·.tag) = bodyTags) :
    b.Advances (.finish "table") ⟨outer, .element table.tag table.attributes
      (.element e.tag e.attributes reversed.reverse :: e.before).reverse :: table.before⟩ := by
  have hmode : b.mode = .inTableBody := h.mode_of_tag htag
  have hclose : b.closeInside .isTableBodyContext = b := by
    refine h.closeInside ?_
    rw [htag]
    rfl
  have hfinish : b.step .inTableBody (.finish "table") =
      (if b.inScope .boundsTableScope (.isAmong ["table", "tbody", "tfoot"]) then
        (b.closeInside .isTableBodyContext).pop.again .inTable
      else b.done) := rfl
  -- the group is closed first, and the table sees the tag once more
  have hagain : b.step b.mode (.finish "table") = b.pop.again .inTable := by
    rw [hmode, hfinish, h.inScope_top (by rw [htag]; rfl), if_pos rfl, hclose]
  have hgroup : (b.pop.goTo .inTable).Represents
      ⟨table :: outer, .element e.tag e.attributes reversed.reverse :: e.before⟩ := by
    have hafter := h.pop_part hskips (htag ▸ by decide)
    rwa [List.map_cons, htable] at hafter
  have hafter := hgroup.pop_part (hskips : (b.pop.goTo .inTable).skipsLineFeed = false)
    (htable ▸ by decide)
  rw [houter] at hafter
  exact ⟨_, .of_again h.toHolds hagain hgroup.toHolds (hgroup.step_table_end htable houter), hafter⟩

end Interdoc.Html.Builder

import Interdoc.Docx.Rendering
import Interdoc.Proofs.Docx.Paragraphs
import Mathlib.Tactic.IntervalCases

/-!
# Rendering step by step

Rendering emits pieces and carries a context.  What is still to come is fixed by the context alone:
its `closing`, the pieces that end everything that is open.  `Emits` is the relation of a context
and items to the pieces and the context after them, and the lemmas say of each kind of paragraph
what it adds; in every one the pieces, together with the closing of the new context, are the closing
of the old one and the HTML of the paragraph.

For lists the open ones matter.  A numbered paragraph closes the lists inside its level
(`closeFor_eq`), so the open lists are a stack whose levels decrease to the outside.
-/

namespace Interdoc.Docx

open Html (Piece)

namespace Context

/-! ### Emission -/

/-- The ends of lists, the innermost first. -/
def closeFrames (frames : List ListFrame) : List Piece :=
  frames.flatMap closeList

/-- The pieces that end all that is open. -/
def closing (c : Context) : List Piece :=
  c.heldBack ++ closeFrames c.lists

/-- Items are rendered to pieces and lead from one context to another. -/
inductive Emits (p : Package) : Context → List BodyItem → List Piece → Context → Prop where
  | nil (c : Context) : Emits p c [] [] c
  | cons {c c' c'' : Context} {item : BodyItem} {items : List BodyItem} {ps qs : List Piece} :
    c.step p item = (ps, c') → Emits p c' items qs c'' →
      Emits p c (item :: items) (ps ++ qs) c''

variable {p : Package} {c c' c'' : Context} {items others : List BodyItem} {ps qs : List Piece}

theorem Emits.append (h : Emits p c items ps c') (h' : Emits p c' others qs c'') :
    Emits p c (items ++ others) (ps ++ qs) c'' := by
  induction h with
  | nil => exact h'
  | cons hstep _ ih =>
    rw [List.append_assoc]
    exact .cons hstep (ih h')

theorem Emits.single {item : BodyItem} (h : c.step p item = (ps, c')) :
    Emits p c [item] ps c' := by
  rw [← List.append_nil ps]
  exact .cons h (.nil c')

/-- A rendering begins with what its first items emit. -/
theorem Emits.render_append (h : Emits p c items ps c') (others : List BodyItem) :
    c.render p (items ++ others) = ps ++ c'.render p others := by
  induction h with
  | nil => rfl
  | cons hstep _ ih =>
    rw [List.cons_append, render, hstep, List.append_assoc]
    exact congrArg _ ih

/-- **A rendering is what its items emit, and the closing of the last context.** -/
theorem Emits.render_eq (h : Emits p c items ps c') : c.render p items = ps ++ c'.closing := by
  have hall := h.render_append []
  rwa [List.append_nil] at hall

/-! ### Single paragraphs -/

/-- The kinds that the written styles are read as. -/
theorem kind_of_style :
    ParagraphKind.ofStyle (Xml.unbroken "") = .normal ∧
    ParagraphKind.ofStyle (Xml.unbroken Style.codeBlock) = .code ∧
    ParagraphKind.ofStyle (Xml.unbroken Style.blockquote) = .quote ∧
    ParagraphKind.ofStyle (Xml.unbroken Style.horizontalLine) = .rule ∧
    ParagraphKind.ofStyle (Xml.unbroken Style.listParagraph) = .continuation := by
  decide

theorem kind_of_heading {level : Nat} (h : 1 ≤ level) (h' : level ≤ 6) :
    ParagraphKind.ofStyle (Xml.unbroken (Style.heading level)) = .heading level := by
  interval_cases level <;> decide

variable {q : Paragraph}

/-- A paragraph that is not numbered. -/
theorem step_unnumbered (h : q.numbering? = none) :
    c.step p (.paragraph q) = c.unnumbered q := by
  rw [step, h]

/-- A block that stands on its own emits all that was open, and leaves nothing open. -/
theorem standalone_eq (pieces : List Piece) :
    c.standalone pieces = (c.closing ++ pieces, {}) := rfl

theorem unnumbered_simple (h : q.kind ∉ [.code, .quote, .continuation]) :
    c.unnumbered q = (c.closing ++ simplePieces q.kind q.content, {}) := by
  rw [unnumbered]
  cases hk : q.kind <;> simp_all [standalone_eq]

/-- A further paragraph of an item stays in the innermost list. -/
theorem unnumbered_continuation (h : q.kind = .continuation) (hlists : c.lists ≠ []) :
    c.unnumbered q = (c.heldBack ++ Html.element "p" q.content, c.released) := by
  rw [unnumbered, h]
  simp only [List.isEmpty_iff, hlists, if_false]

/-! ### Lists -/

/-- A numbered paragraph is an item of a list. -/
theorem step_numbered {numId level : String} (h : q.numbering? = some (numId, level)) :
    c.step p (.paragraph q) = c.listItem p numId level q.content := by
  rw [step, h]

theorem levelNumber_toString {level : Nat} (h : level ≤ deepestLevel) :
    levelNumber (toString level) = level := by
  rw [deepestLevel] at h
  interval_cases level <;> decide

/-- **A numbered paragraph closes exactly the lists that it ends.**  Those are the deeper ones, and
a list of its own level with another number. -/
theorem closeFor_eq {numId : String} {level : Nat} {ended remaining : List ListFrame}
    (hended : ∀ f ∈ ended, level < f.level ∨ (f.level = level ∧ f.numId ≠ numId))
    (hremaining : ∀ f ∈ remaining.head?, f.level < level ∨ (f.level = level ∧ f.numId = numId)) :
    closeFor numId level (ended ++ remaining) = (closeFrames ended, remaining) := by
  -- the search closes one list after the other, and stops at the first that stays
  induction ended with
  | nil =>
    cases remaining with
    | nil => rfl
    | cons f outer =>
      have hf := hremaining f rfl
      rw [List.nil_append, closeFor, if_neg]
      · rfl
      · simp only [Bool.or_eq_true, decide_eq_true_eq, Bool.and_eq_true, bne_iff_ne]
        rintro (h | ⟨h, hne⟩)
        · omega
        · exact hf.elim (fun hf => by omega) fun hf => hne hf.2
  | cons f ended ih =>
    rw [List.forall_mem_cons] at hended
    rw [List.cons_append, closeFor, if_pos, ih hended.2]
    · rfl
    · simpa only [Bool.or_eq_true, decide_eq_true_eq, Bool.and_eq_true, bne_iff_ne] using hended.1

section

variable {numId level : String} {depth : Nat} {ended outer : List ListFrame} {content : List Piece}

/-- The first item of a list. -/
theorem listItem_first {ordered : Bool} (hlevel : levelNumber level = depth)
    (hordered : p.isOrdered numId level = ordered) (hlists : c.lists = ended ++ outer)
    (hended : ∀ f ∈ ended, depth < f.level ∨ (f.level = depth ∧ f.numId ≠ numId))
    (houter : ∀ f ∈ outer, f.level < depth) :
    c.listItem p numId level content =
      (c.heldBack ++ closeFrames ended ++ [.start (listTag ordered) [], .start "li" []] ++
        Html.element "p" content, { lists := ⟨numId, depth, ordered⟩ :: outer }) := by
  have hclose := closeFor_eq hended fun f hf => .inl (houter f (List.mem_of_mem_head? hf))
  have hnext : (outer.head?.map fun frame => frame.level == depth).getD false = false := by
    cases outer with
    | nil => rfl
    | cons f outer =>
      have hf := houter f List.mem_cons_self
      simp only [List.head?_cons, Option.map_some, Option.getD_some, beq_eq_false_iff_ne]
      omega
  rw [listItem, hlevel, hlists, hclose]
  simp only [hnext, hordered]
  rfl

/-- A further item of an open list. -/
theorem listItem_next {frame : ListFrame} (hlevel : levelNumber level = depth)
    (hlists : c.lists = ended ++ frame :: outer) (hframe : frame.level = depth)
    (hnumber : frame.numId = numId) (hended : ∀ f ∈ ended, depth < f.level) :
    c.listItem p numId level content =
      (c.heldBack ++ closeFrames ended ++ [.finish "li", .start "li" []] ++
        Html.element "p" content, { lists := frame :: outer }) := by
  have hclose : closeFor numId depth (ended ++ frame :: outer) =
      (closeFrames ended, frame :: outer) :=
    closeFor_eq (fun f hf => .inl (hended f hf)) fun f hf => .inr <| by
      cases hf
      exact ⟨hframe, hnumber⟩
  rw [listItem, hlevel, hlists, hclose]
  simp only [List.head?_cons, Option.map_some, Option.getD_some, hframe, beq_self_eq_true, if_true]

end

end Context

end Interdoc.Docx

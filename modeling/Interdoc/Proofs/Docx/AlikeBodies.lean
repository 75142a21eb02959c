import Interdoc.Proofs.Docx.Emission
import Interdoc.Proofs.Html.Nesting

/-!
# Bodies that are rendered alike

Rendering does not look into the content of a paragraph or into a table.  If the items of two
bodies agree in all that it looks at, and what it hands on means the same, then the renderings mean
the same (`Context.render_alike`).  One step keeps this: it emits pieces that are alike, and leads
to contexts that hold back the same (`Context.step_alike`).
-/

namespace Interdoc.Docx

open Html (Piece)

/-! ### Items -/

/-- Two paragraphs of the same kind and place, with content that means the same. -/
structure Paragraph.Alike (q r : Paragraph) : Prop where
  kind : q.kind = r.kind
  numbering : q.numbering? = r.numbering?
  content : Html.Alike q.content r.content
  codeLine : q.kind = .code → q.codeLine = r.codeLine

theorem Paragraph.Alike.refl (q : Paragraph) : q.Alike q :=
  ⟨rfl, rfl, .refl _, fun _ => rfl⟩

/-- Two items that are rendered alike. -/
inductive BodyItem.Alike : BodyItem → BodyItem → Prop where
  | paragraph {q r : Paragraph} : q.Alike r → Alike (.paragraph q) (.paragraph r)
  | table {ps qs : List Piece} : Html.Alike ps qs → Alike (.table ps) (.table qs)

theorem BodyItem.Alike.refl (item : BodyItem) : item.Alike item := by
  cases item with
  | paragraph q => exact .paragraph (.refl q)
  | table pieces => exact .table (.refl pieces)

namespace Context

/-! ### Contexts -/

/-- Two contexts with the same open, and quotes that mean the same held back. -/
structure Alike (c d : Context) : Prop where
  codeLines : c.codeLines = d.codeLines
  quotes : List.Forall₂ Html.Alike c.quotes d.quotes
  lists : c.lists = d.lists

theorem alike_lists (lists : List ListFrame) : Alike { lists } { lists } :=
  ⟨rfl, .nil, rfl⟩

variable {c d : Context} {p : Package}

theorem quotePieces_alike {quotes quotes' : List (List Piece)}
    (h : List.Forall₂ Html.Alike quotes quotes') :
    Html.Alike (quotePieces quotes) (quotePieces quotes') := by
  rw [quotePieces, quotePieces]
  cases h with
  | nil => exact .refl _
  | cons hfirst hrest =>
    exact (Html.Alike.flatMap (fun _ _ hq => hq.element "p" []) (.cons hfirst hrest)).element _ _

theorem Alike.heldBack (h : c.Alike d) : Html.Alike c.heldBack d.heldBack := by
  rw [Context.heldBack, Context.heldBack, h.codeLines]
  exact (Html.Alike.refl _).append (quotePieces_alike h.quotes)

theorem Alike.closeLists (h : c.Alike d) : c.closeLists = d.closeLists := by
  rw [Context.closeLists, Context.closeLists, h.lists]

theorem Alike.closing (h : c.Alike d) :
    Html.Alike (c.heldBack ++ c.closeLists) (d.heldBack ++ d.closeLists) := by
  rw [h.closeLists]
  exact h.heldBack.append (.refl _)

theorem Alike.quotes_isEmpty (h : c.Alike d) : c.quotes.isEmpty = d.quotes.isEmpty := by
  have hquotes := h.quotes
  revert hquotes
  cases c.quotes <;> cases d.quotes <;> rintro ⟨⟩ <;> rfl

/-! ### Steps -/

/-- Two outcomes of a step that mean the same. -/
def OutcomeAlike (a b : List Piece × Context) : Prop :=
  Html.Alike a.1 b.1 ∧ a.2.Alike b.2

variable {ps qs : List Piece}

theorem standalone_alike (h : c.Alike d) (hps : Html.Alike ps qs) :
    OutcomeAlike (c.standalone ps) (d.standalone qs) :=
  ⟨h.closing.append hps, alike_lists []⟩

theorem listItem_alike (h : c.Alike d) (numId level : String) (hps : Html.Alike ps qs) :
    OutcomeAlike (c.listItem p numId level ps) (d.listItem p numId level qs) := by
  rw [listItem, listItem, h.lists]
  refine ⟨?_, alike_lists _⟩
  exact ((h.heldBack.append (.refl _)).append (.refl _)).append (hps.element "p" [])

theorem codeLine_alike (h : c.Alike d) (line : List Char) :
    OutcomeAlike (c.codeLine line) (d.codeLine line) := by
  rw [codeLine, codeLine, h.quotes_isEmpty]
  split
  · refine ⟨?_, ⟨?_, h.quotes, rfl⟩⟩
    · rw [h.closeLists]
      exact .refl _
    · rw [h.codeLines]
  · exact ⟨h.closing, rfl, .nil, rfl⟩

theorem quote_alike (h : c.Alike d) (hps : Html.Alike ps qs) :
    OutcomeAlike (c.quote ps) (d.quote qs) := by
  rw [quote, quote, h.codeLines]
  split
  · refine ⟨?_, ⟨rfl, ?_, rfl⟩⟩
    · rw [h.closeLists]
      exact .refl _
    · exact List.rel_append h.quotes (.cons hps .nil)
  · exact ⟨h.closing, rfl, .cons hps .nil, rfl⟩

theorem simplePieces_alike (kind : ParagraphKind) (hps : Html.Alike ps qs) :
    Html.Alike (simplePieces kind ps) (simplePieces kind qs) := by
  cases kind with
  | heading level => exact hps.element ("h" ++ toString level) []
  | rule => exact .refl _
  | normal | code | quote | continuation => exact hps.element "p" []

theorem unnumbered_alike (h : c.Alike d) {q r : Paragraph} (hq : q.Alike r) :
    OutcomeAlike (c.unnumbered q) (d.unnumbered r) := by
  have hstandalone : OutcomeAlike (c.standalone (simplePieces q.kind q.content))
      (d.standalone (simplePieces q.kind r.content)) :=
    standalone_alike h (simplePieces_alike q.kind hq.content)
  rw [unnumbered, unnumbered, ← hq.kind]
  -- alike paragraphs are of one kind, so both are rendered by the same rule
  cases hkind : q.kind with
  | code =>
    rw [← hq.codeLine hkind]
    exact codeLine_alike h q.codeLine
  | quote => exact quote_alike h hq.content
  | continuation =>
    dsimp only
    rw [h.lists]
    split
    · exact standalone_alike h (hq.content.element "p" [])
    · refine ⟨h.heldBack.append (hq.content.element "p" []), rfl, .nil, ?_⟩
      rw [released, released, h.lists]
  | normal | rule | heading level =>
    rw [hkind] at hstandalone
    exact hstandalone

/-- **One step of items that are alike emits pieces that are alike**, and leads to contexts that
are. -/
theorem step_alike (h : c.Alike d) {item item' : BodyItem} (hitem : item.Alike item') :
    OutcomeAlike (c.step p item) (d.step p item') := by
  cases hitem with
  | table hps => exact standalone_alike h hps
  | @paragraph q r hq =>
    rw [step, step, ← hq.numbering]
    cases q.numbering? with
    | none => exact unnumbered_alike h hq
    | some place => exact listItem_alike h place.1 place.2 hq.content

/-- **Bodies that are alike are rendered alike.** -/
theorem render_alike {items items' : List BodyItem}
    (hitems : List.Forall₂ BodyItem.Alike items items') (h : c.Alike d) :
    Html.Alike (c.render p items) (d.render p items') := by
  induction hitems generalizing c d with
  | nil => exact h.closing
  | cons hitem _ ih =>
    obtain ⟨hpieces, hcontext⟩ := step_alike (p := p) h hitem
    exact hpieces.append (ih hcontext)

end Context

end Interdoc.Docx

import Interdoc.Proofs.Docx.WellNested

/-!
# Runs of numbered paragraphs

A run is a sequence of numbered paragraphs, each with the further paragraphs of its item
(`RunItem`).  No list is open before it, and what follows ends all lists (`BodyItem.EndsLists`); so
it is rendered between what is rendered before it and after it, as if it stood alone
(`render_heldBack`, `render_endsLists`).

Numbered paragraphs in a row always are a part of a run (`exists_run`).  It begins at the last place
before them at which no list is open (`exists_unopened`), and reaches up to the next item that ends
all lists (`exists_runItems`).
-/

namespace Interdoc.Docx

open Html (Piece)
open Context (closeFrames)

/-! ### Items of a run -/

/-- A paragraph goes on with the item of a paragraph before it, if there is one. -/
def Paragraph.Continues (q : Paragraph) : Prop :=
  q.numbering? = none ∧ q.kind = .continuation

/-- The items that end all open lists: tables, and paragraphs that are neither numbered nor further
paragraphs of an item. -/
def BodyItem.EndsLists : BodyItem → Prop
  | .table _ => True
  | .paragraph q => q.numbering? = none ∧ q.kind ≠ .continuation

/-- A numbered paragraph, and the further paragraphs of its item. -/
structure RunItem where
  first : Paragraph
  numId : String
  level : String
  numbered : first.numbering? = some (numId, level)
  further : List Paragraph
  continues : ∀ q ∈ further, q.Continues

namespace RunItem

/-- All its paragraphs. -/
def bodyItems (r : RunItem) : List BodyItem :=
  (r.first :: r.further).map .paragraph

/-- What it adds to its item. -/
def pieces (r : RunItem) : List Piece :=
  (r.first :: r.further).flatMap fun q => Html.element "p" q.content

end RunItem

variable {p : Package}

/-- The further paragraphs of an item leave the lists as they are. -/
theorem emits_further {further : List Paragraph}
    (h : ∀ q ∈ further, q.Continues) {lists : List ListFrame} (hlists : lists ≠ []) :
    Context.Emits p { lists } (further.map .paragraph)
      (further.flatMap fun q => Html.element "p" q.content) { lists } := by
  induction further with
  | nil => exact .nil _
  | cons q further ih =>
    rw [List.forall_mem_cons] at h
    have hstep : Context.step p { lists } (.paragraph q) =
        (Html.element "p" q.content, { lists }) := by
      rw [Context.step_unnumbered h.1.1, Context.unnumbered_continuation h.1.2 hlists]
      rfl
    exact .cons hstep (ih h.2)

/-- An item, once it is known what its numbered paragraph opens. -/
theorem emits_runItem {r : RunItem} {lists lists' : List ListFrame} {opening : List Piece}
    (hlists : lists' ≠ [])
    (hitem : Context.listItem p { lists } r.numId r.level r.first.content =
      (opening ++ Html.element "p" r.first.content, { lists := lists' })) :
    Context.Emits p { lists } r.bodyItems (opening ++ r.pieces) { lists := lists' } := by
  have hstep : Context.step p { lists } (.paragraph r.first) =
      (opening ++ Html.element "p" r.first.content, { lists := lists' }) := by
    rw [Context.step_numbered r.numbered, hitem]
  have hemits := Context.Emits.cons hstep (emits_further r.continues hlists)
  rwa [List.append_assoc] at hemits

/-! ### The ends of a run -/

/-- What ends all lists is rendered behind their ends, as if there were none. -/
theorem step_endsLists {item : BodyItem} (h : item.EndsLists) (lists : List ListFrame) :
    Context.step p { lists } item =
      (closeFrames lists ++ (Context.step p {} item).1, (Context.step p {} item).2) := by
  cases item with
  | table pieces => rfl
  | paragraph q =>
    obtain ⟨hnumbering, hkind⟩ := h
    rw [Context.step_unnumbered hnumbering, Context.step_unnumbered hnumbering]
    rw [Context.unnumbered, Context.unnumbered]
    split
    · simp [Context.codeLine, Context.closeLists, closeFrames]
    · simp [Context.quote, Context.closeLists, closeFrames]
    · next hcontinuation => exact absurd hcontinuation hkind
    · rfl

theorem render_cons_of_step {c c' : Context} {item : BodyItem} {ps : List Piece}
    (h : c.step p item = (ps ++ (c'.step p item).1, (c'.step p item).2)) (items : List BodyItem) :
    c.render p (item :: items) = ps ++ c'.render p (item :: items) := by
  rw [Context.render, Context.render, h]
  exact List.append_assoc _ _ _

theorem render_endsLists {after : List BodyItem} (h : ∀ item ∈ after.head?, item.EndsLists)
    (lists : List ListFrame) :
    Context.render p { lists } after = closeFrames lists ++ Context.render p {} after := by
  cases after with
  | nil => exact (List.append_nil _).symm
  | cons item after => exact render_cons_of_step (step_endsLists (h item rfl) lists) after

/-- What is held back comes in front of a numbered paragraph. -/
theorem render_heldBack {c : Context} (hc : c.lists = []) (r : RunItem) (items : List BodyItem) :
    c.render p (r.bodyItems ++ items) =
      c.heldBack ++ Context.render p {} (r.bodyItems ++ items) := by
  have hstep : c.step p (.paragraph r.first) =
      (c.heldBack ++ (Context.step p {} (.paragraph r.first)).1,
        (Context.step p {} (.paragraph r.first)).2) := by
    rw [Context.step_numbered r.numbered, Context.step_numbered r.numbered, Context.listItem,
      Context.listItem, hc]
    simp [Context.closeFor, Context.heldBack, Context.codePieces, Context.quotePieces]
  exact render_cons_of_step hstep (r.further.map .paragraph ++ items)

/-! ### Runs in a body -/

/-- Numbered paragraphs. -/
def BodyItem.IsNumbered : BodyItem → Prop
  | .table _ => False
  | .paragraph q => q.numbering? ≠ none

theorem lists_step_endsLists {c : Context} {item : BodyItem} (h : item.EndsLists) :
    (c.step p item).2.lists = [] := by
  cases item with
  | table pieces => rfl
  | paragraph q =>
    obtain ⟨hnumbering, hkind⟩ := h
    rw [Context.step_unnumbered hnumbering, Context.unnumbered]
    split
    · rw [Context.codeLine]
      split <;> rfl
    · rw [Context.quote]
      split <;> rfl
    · next hcontinuation => exact absurd hcontinuation hkind
    · rfl

/-- Only a numbered paragraph opens a list. -/
theorem lists_step_of_not_isNumbered {c : Context} {item : BodyItem} (h : ¬ item.IsNumbered)
    (hc : c.lists = []) : (c.step p item).2.lists = [] := by
  by_cases hends : item.EndsLists
  · exact lists_step_endsLists hends
  · cases item with
    | table pieces => exact absurd trivial hends
    | paragraph q =>
      have hnumbering : q.numbering? = none := by_contra h
      have hkind : q.kind = .continuation := by_contra fun hne => hends ⟨hnumbering, hne⟩
      rw [Context.step_unnumbered hnumbering, Context.unnumbered, hkind, hc]
      rfl

theorem after_append_singleton (items : List BodyItem) (item : BodyItem) :
    Context.after p {} (items ++ [item]) = ((Context.after p {} items).step p item).2 := by
  rw [Context.after, List.foldl_append]
  rfl

/-- Every sequence of items has a last place at which no list is open.  Behind it, if anything,
there are a numbered paragraph and items that end no lists. -/
theorem exists_unopened (p : Package) (items : List BodyItem) :
    ∃ before opened, items = before ++ opened ∧ (Context.after p {} before).lists = [] ∧
      (∀ item ∈ opened, ¬ item.EndsLists) ∧ ∀ item ∈ opened.head?, item.IsNumbered := by
  induction items using List.reverseRecOn with
  | nil => exact ⟨[], [], rfl, rfl, List.forall_mem_nil _, by simp⟩
  | append_singleton items item ih =>
    obtain ⟨before, opened, rfl, hbefore, hopened, hhead⟩ := ih
    -- with one more item, either nothing is open behind it, or what was open stays open
    by_cases hends : item.EndsLists
    · refine ⟨before ++ opened ++ [item], [], by simp, ?_, List.forall_mem_nil _, by simp⟩
      rw [after_append_singleton]
      exact lists_step_endsLists hends
    · cases opened with
      | cons first opened =>
        refine ⟨before, first :: opened ++ [item], by simp, hbefore, ?_, by simpa using hhead⟩
        rw [List.forall_mem_append, List.forall_mem_singleton]
        exact ⟨hopened, hends⟩
      | nil =>
        rw [List.append_nil]
        by_cases hnumbered : item.IsNumbered
        · exact ⟨before, [item], rfl, hbefore, List.forall_mem_singleton.mpr hends,
            by simpa using hnumbered⟩
        · refine ⟨before ++ [item], [], by simp, ?_, List.forall_mem_nil _, by simp⟩
          rw [after_append_singleton]
          exact lists_step_of_not_isNumbered hnumbered hbefore

/-- What stands in front of the next item that ends all lists: further paragraphs of an earlier
item, and a run. -/
theorem exists_runItems (items : List BodyItem) :
    ∃ (further : List Paragraph) (run : List RunItem) (after : List BodyItem),
      items = further.map .paragraph ++ (run.flatMap RunItem.bodyItems ++ after) ∧
      (∀ q ∈ further, q.Continues) ∧ ∀ item ∈ after.head?, item.EndsLists := by
  induction items with
  | nil => exact ⟨[], [], [], rfl, List.forall_mem_nil _, by simp⟩
  | cons item items ih =>
    by_cases hends : item.EndsLists
    · exact ⟨[], [], item :: items, rfl, List.forall_mem_nil _, by simpa using hends⟩
    · cases item with
      | table pieces => exact absurd trivial hends
      | paragraph q =>
        obtain ⟨further, run, after, rfl, hfurther, hafter⟩ := ih
        -- a numbered paragraph takes what follows it as its own further paragraphs
        cases hq : q.numbering? with
        | none =>
          have hkind : q.kind = .continuation := by_contra fun hne => hends ⟨hq, hne⟩
          exact ⟨q :: further, run, after, rfl, List.forall_mem_cons.mpr ⟨⟨hq, hkind⟩, hfurther⟩,
            hafter⟩
        | some place =>
          let r : RunItem := ⟨q, place.1, place.2, hq, further, hfurther⟩
          exact ⟨[], r :: run, after, by simp [r, RunItem.bodyItems], List.forall_mem_nil _, hafter⟩

theorem not_endsLists {item : BodyItem} (h : item.IsNumbered) : ¬ item.EndsLists := by
  cases item with
  | table pieces => exact absurd h id
  | paragraph q => exact fun hends => h hends.1

/-- Items that end no lists do not reach over one that does. -/
theorem prefix_of_not_endsLists {inside items after others : List BodyItem}
    (hinside : ∀ item ∈ inside, ¬ item.EndsLists) (hafter : ∀ item ∈ after.head?, item.EndsLists)
    (h : inside ++ others = items ++ after) : inside <+: items := by
  rcases List.append_eq_append_iff.mp h with ⟨rest, rfl, -⟩ | ⟨rest, rfl, rfl⟩
  · exact List.prefix_append _ _
  · cases rest with
    | nil => simp
    | cons item rest =>
      exact absurd (hafter item rfl) (hinside item (by simp))

/-- **Numbered paragraphs in a row are part of a run** before which no list is open, and behind
which all lists end. -/
theorem exists_run (p : Package) {before numbered after : List BodyItem}
    (hnumbered : ∀ item ∈ numbered, item.IsNumbered) (hne : numbered ≠ []) :
    ∃ (before' : List BodyItem) (run : List RunItem) (after' : List BodyItem),
      before ++ (numbered ++ after) = before' ++ (run.flatMap RunItem.bodyItems ++ after') ∧
      run ≠ [] ∧
      (Context.after p {} before').lists = [] ∧ (∀ item ∈ after'.head?, item.EndsLists) ∧
      before' <+: before ∧ before ++ numbered <+: before' ++ run.flatMap RunItem.bodyItems := by
  obtain ⟨before', opened, rfl, hbefore, hopened, hhead⟩ := exists_unopened p before
  obtain ⟨further, run, after', hitems, hfurther, hafter⟩ :=
    exists_runItems (opened ++ numbered ++ after)
  have hopened' : ∀ item ∈ opened ++ numbered, ¬ item.EndsLists := by
    rw [List.forall_mem_append]
    exact ⟨hopened, fun item hitem => not_endsLists (hnumbered item hitem)⟩
  have hfirst : ∀ item ∈ (opened ++ numbered).head?, item.IsNumbered := by
    cases opened with
    | nil => exact fun item hitem => hnumbered item (List.mem_of_mem_head? hitem)
    | cons first opened => exact hhead
  have hne' : opened ++ numbered ≠ [] := List.append_ne_nil_of_right_ne_nil _ hne
  -- the run begins with the first of these items
  have hnone : further = [] := by
    cases further with
    | nil => rfl
    | cons q further =>
      have hq : (opened ++ numbered).head? = some (.paragraph q) := by
        rw [← List.head?_append_of_ne_nil _ hne', hitems]
        rfl
      exact absurd (List.forall_mem_cons.mp hfurther).1.1 (hfirst _ hq)
  rw [hnone, List.map_nil, List.nil_append] at hitems
  have hprefix : opened ++ numbered <+: run.flatMap RunItem.bodyItems :=
    prefix_of_not_endsLists hopened' hafter hitems
  refine ⟨before', run, after', ?_, ?_, hbefore, hafter, List.prefix_append _ _, ?_⟩
  · rw [← hitems]
    simp only [List.append_assoc]
  · rintro rfl
    exact hne' (List.prefix_nil.mp hprefix)
  · rw [List.append_assoc]
    exact (List.prefix_append_right_inj before').mpr hprefix

end Interdoc.Docx

import Interdoc.Proofs.Docx.Emission
import Interdoc.Proofs.Docx.PlainHtml

/-!
# Rendering lists

A list is laid out as a run of paragraphs: those with a number begin the items, and what belongs to
an item follows.  Rendering recovers the items from the numbers and levels alone.  After a list all
of it is still open; what is open is what `Ended` says, deeper lists and lists of the same level with
an earlier number, so that whatever follows closes it.  The accounts are kept by the ends of these
lists (`closeFrames`): the pieces emitted, together with the ends that are still to come, are the
ends that were to come before and the HTML of what was rendered.

The induction is on the levels that a list may still have inside; the numbers of the levels add up
to nine, so that no two of them are written alike.
-/

namespace Interdoc.Docx

open Interdoc (Inline Block)
open Html (Piece)
open Context (Emits closeFrames listTag)

/-! ### Layouts -/

namespace Layout

@[simp] theorem items_append (a b : Layout) : (a ++ b).items = a.items ++ b.items := rfl

@[simp] theorem lists_append (a b : Layout) : (a ++ b).lists = a.lists ++ b.lists := rfl

theorem append_assoc (a b c : Layout) : a ++ b ++ c = a ++ (b ++ c) :=
  congrArg₂ Layout.mk (List.append_assoc _ _ _) (List.append_assoc _ _ _)

theorem empty_append (l : Layout) : empty ++ l = l := rfl

end Layout

/-- The layout of a block whose paragraphs have a style. -/
def styledBlock (o : Options) (next depth : Nat) (style : String) : Block → Layout
  | .paragraph inlines => .paragraph o { style := some style } inlines
  | b => layoutBlock o next depth b

theorem layoutStyled_cons (o : Options) (next depth : Nat) (style : String) (b : Block)
    (blocks : List Block) :
    layoutStyled o next depth style (b :: blocks) =
      styledBlock o next depth style b ++
        layoutStyled o (next + (styledBlock o next depth style b).lists.length) depth style
          blocks := by
  cases b <;> rfl

/-- The layout of an item that begins with a paragraph. -/
def layoutItem (o : Options) (next depth : Nat) (place : ListPlace) (inlines : List Inline)
    (blocks : List Block) : Layout :=
  .paragraph o { place := some place } inlines ++
    layoutStyled o next depth Style.listParagraph blocks

theorem layoutItems_cons (o : Options) (next depth : Nat) (place : ListPlace)
    (inlines : List Inline) (blocks : List Block) (items : List (List Block)) :
    layoutItems o next depth place ((.paragraph inlines :: blocks) :: items) =
      layoutItem o next depth place inlines blocks ++
        layoutItems o (next + (layoutItem o next depth place inlines blocks).lists.length) depth
          place items := rfl

/-- The layout of blocks in a row is made of those of its parts. -/
theorem layoutStyled_append (o : Options) (next depth : Nat) (style : String)
    (bs cs : List Block) :
    layoutStyled o next depth style (bs ++ cs) =
      layoutStyled o next depth style bs ++
        layoutStyled o (next + (layoutStyled o next depth style bs).lists.length) depth style
          cs := by
  induction bs generalizing next with
  | nil => rw [List.nil_append, layoutStyled, Layout.empty_append]; rfl
  | cons b bs ih =>
    rw [List.cons_append, layoutStyled_cons, layoutStyled_cons, ih, Layout.append_assoc]
    simp only [Layout.lists_append, List.length_append, Nat.add_assoc]

/-! ### Numbers -/

/-- In the package, the lists from a number on are of the given kinds, on all levels. -/
def Numbers (p : Package) (next : Nat) (lists : List Bool) : Prop :=
  ∀ i level ordered, lists[i]? = some ordered → level ≤ deepestLevel →
    p.isOrdered (toString (i + next)) (toString level) = ordered

section

variable {p : Package} {next : Nat}

theorem Numbers.head {ordered : Bool} {lists : List Bool} (h : Numbers p next (ordered :: lists))
    {level : Nat} (hlevel : level ≤ deepestLevel) :
    p.isOrdered (toString next) (toString level) = ordered := by
  simpa using h 0 level ordered rfl hlevel

theorem Numbers.right {as bs : List Bool} (h : Numbers p next (as ++ bs)) :
    Numbers p (next + as.length) bs := fun i level ordered hi hlevel => by
  have := h (as.length + i) level ordered
    (by rw [List.getElem?_append_right (Nat.le_add_right _ _), Nat.add_sub_cancel_left, hi]) hlevel
  rwa [show as.length + i + next = i + (next + as.length) by omega] at this

theorem Numbers.tail {ordered : Bool} {lists : List Bool} (h : Numbers p next (ordered :: lists)) :
    Numbers p (next + 1) lists :=
  @Numbers.right p next [ordered] lists h

theorem Numbers.left {as bs : List Bool} (h : Numbers p next (as ++ bs)) : Numbers p next as :=
  fun i level ordered hi hlevel => h i level ordered
    (by rw [List.getElem?_append_left (List.getElem?_eq_some_iff.mp hi).1, hi]) hlevel

end

/-! ### Open lists -/

/-- Lists that a new list of the level closes: deeper ones, and such of the same level as have a
number before `next`. -/
def Ended (level next : Nat) (frames : List ListFrame) : Prop :=
  ∀ f ∈ frames, level < f.level ∨ (f.level = level ∧ ∃ n < next, f.numId = toString n)

section

variable {level next : Nat} {frames : List ListFrame}

theorem ended_nil (level next : Nat) : Ended level next [] :=
  List.forall_mem_nil _

theorem Ended.mono (h : Ended level next frames) {later : Nat} (hle : next ≤ later) :
    Ended level later frames := fun f hf =>
  (h f hf).imp_right fun ⟨hl, n, hn, he⟩ => ⟨hl, n, by omega, he⟩

theorem Ended.numId_ne (h : Ended level next frames) {n : Nat} (hn : next ≤ n) :
    ∀ f ∈ frames, level < f.level ∨ (f.level = level ∧ f.numId ≠ toString n) := fun f hf =>
  (h f hf).imp_right fun ⟨hl, m, hm, he⟩ => ⟨hl, fun h => by
    have := toString_inj.mp (he ▸ h)
    omega⟩

theorem Ended.lt_of_succ (h : Ended (level + 1) next frames) : ∀ f ∈ frames, level < f.level :=
  fun f hf => (h f hf).elim (fun hl => by omega) fun hl => by omega

end

/-! ### Paragraphs -/

/-- A paragraph with a place in a list is read as a numbered one. -/
theorem numbering_of_place {q : WrittenParagraph} {n level : Nat} (h : q.place = some ⟨n, level⟩)
    (hn : 0 < n) : q.read.numbering? = some (toString n, toString level) := by
  rw [WrittenParagraph.read, h, Option.filter_some, if_pos (by simpa using hn.ne')]
  rfl

theorem kind_read (q : WrittenParagraph) :
    q.read.kind = .ofStyle (Xml.unbroken (q.style.getD "")) := by
  rw [WrittenParagraph.read, WrittenParagraph.styleName]

theorem numbering_of_no_place {q : WrittenParagraph} (h : q.place = none) :
    q.read.numbering? = none := by
  rw [WrittenParagraph.read, h]
  rfl

variable {o : Options} {p : Package}

/-- Further paragraphs of an item add to the innermost list. -/
theorem emits_continuations (next depth : Nat) {blocks : List Block}
    (h : ∀ b ∈ blocks, isPlainParagraph b = true) {lists : List ListFrame} (hlists : lists ≠ []) :
    (layoutStyled o next depth Style.listParagraph blocks).lists = [] ∧
      Emits p { lists }
        ((layoutStyled o next depth Style.listParagraph blocks).items.map LayoutItem.read)
        (htmlOfAll o blocks) { lists } := by
  induction blocks generalizing next with
  | nil => exact ⟨rfl, .nil _⟩
  | cons b blocks ih =>
    rw [List.forall_mem_cons] at h
    obtain ⟨xs, rfl, hxs⟩ := exists_of_isPlainParagraph h.1
    obtain ⟨hlist, hemits⟩ := ih next h.2
    let q : WrittenParagraph :=
      { style := some Style.listParagraph, parts := partsAmong o {} xs }
    have hq := plain_spec o hxs (p := q) rfl
    -- the style alone makes it a further paragraph of the item
    have hkind : q.read.kind = .continuation := by
      rw [kind_read]
      exact Context.kind_of_style.2.2.2.2
    have hstep : Context.step p { lists } (.paragraph q.read) =
        (htmlOf o (.paragraph xs), { lists }) := by
      rw [Context.step_unnumbered (numbering_of_no_place rfl),
        Context.unnumbered_continuation hkind hlists, hq.2]
      rfl
    exact ⟨hlist, .cons hstep hemits⟩

/-! ### Lists in an item -/

/-- A list is rendered at a level from every context whose other lists are of lower levels: it
closes what it ends, and all of it stays open. -/
structure RendersAt (o : Options) (p : Package) (level : Nat) (b : Block) : Prop where
  ne_paragraph : ∀ xs, b ≠ .paragraph xs
  emits : ∀ {next : Nat} {c : Context} {ended outer : List ListFrame}, 0 < next →
    Numbers p next (layoutBlock o next level b).lists → c.lists = ended ++ outer →
    Ended level next ended → (∀ f ∈ outer, f.level < level) →
    ∃ pieces ended',
      Emits p c ((layoutBlock o next level b).items.map LayoutItem.read) pieces
        { lists := ended' ++ outer } ∧
      Ended level (next + (layoutBlock o next level b).lists.length) ended' ∧
      pieces ++ closeFrames ended' = c.heldBack ++ closeFrames ended ++ htmlOf o b

theorem closeFrames_append (frames outer : List ListFrame) :
    closeFrames (frames ++ outer) = closeFrames frames ++ closeFrames outer :=
  List.flatMap_append

theorem RendersAt.styledBlock_eq {level : Nat} {b : Block} (h : RendersAt o p level b)
    (next : Nat) (style : String) :
    styledBlock o next level style b = layoutBlock o next level b := by
  cases b with
  | paragraph xs => exact absurd rfl (h.ne_paragraph xs)
  | heading | list | quote | code | rule | table => rfl

/-- Lists in a row are rendered one after the other, each closing the one before. -/
theorem emits_lists {level next : Nat} {style : String} {ls : List Block}
    (h : ∀ l ∈ ls, RendersAt o p level l) (hnext : 0 < next)
    (hnumbers : Numbers p next (layoutStyled o next level style ls).lists)
    {ended outer : List ListFrame} (hended : Ended level next ended)
    (houter : ∀ f ∈ outer, f.level < level) :
    ∃ pieces ended',
      Emits p { lists := ended ++ outer }
        ((layoutStyled o next level style ls).items.map LayoutItem.read) pieces
        { lists := ended' ++ outer } ∧
      Ended level (next + (layoutStyled o next level style ls).lists.length) ended' ∧
      pieces ++ closeFrames ended' = closeFrames ended ++ htmlOfAll o ls := by
  induction ls generalizing next ended with
  | nil => exact ⟨[], ended, .nil _, hended, (List.append_nil _).symm⟩
  | cons l ls ih =>
    rw [List.forall_mem_cons] at h
    have hlayout := layoutStyled_cons o next level style l ls
    rw [h.1.styledBlock_eq] at hlayout
    rw [hlayout] at hnumbers ⊢
    -- the first list is left open, and the next one closes it
    obtain ⟨ps, between, hps, hbetween, heq⟩ :=
      h.1.emits (c := { lists := ended ++ outer }) hnext hnumbers.left rfl hended houter
    obtain ⟨qs, ended', hqs, hended', heq'⟩ := ih h.2 (by omega) hnumbers.right hbetween
    refine ⟨ps ++ qs, ended', ?_, ?_, ?_⟩
    · rw [Layout.items_append, List.map_append]
      exact hps.append hqs
    · rwa [Layout.lists_append, List.length_append, ← Nat.add_assoc]
    · rw [List.append_assoc, heq', ← List.append_assoc, heq, htmlOfAll, ← List.append_assoc]
      rfl

/-! ### Items -/

/-- An item of a list at a level: a paragraph, and then paragraphs and lists that are rendered one
level deeper. -/
structure ItemRendersAt (o : Options) (p : Package) (level : Nat) (blocks : List Block) : Prop where
  parts : ∃ xs ps ls, blocks = .paragraph xs :: (ps ++ ls) ∧ isPlainInlines xs = true ∧
    (∀ b ∈ ps, isPlainParagraph b = true) ∧ ∀ l ∈ ls, RendersAt o p (level + 1) l

theorem emits_content {level next : Nat} {ps ls : List Block}
    (hps : ∀ b ∈ ps, isPlainParagraph b = true) (hls : ∀ l ∈ ls, RendersAt o p (level + 1) l)
    (hnext : 0 < next)
    (hnumbers : Numbers p next
      (layoutStyled o next (level + 1) Style.listParagraph (ps ++ ls)).lists)
    {frame : ListFrame} {outer : List ListFrame} (hframe : frame.level = level)
    (houter : ∀ f ∈ outer, f.level < level) :
    ∃ pieces ended,
      Emits p { lists := frame :: outer }
        ((layoutStyled o next (level + 1) Style.listParagraph (ps ++ ls)).items.map
          LayoutItem.read) pieces { lists := ended ++ frame :: outer } ∧
      (∀ f ∈ ended, level < f.level) ∧
      pieces ++ closeFrames ended = htmlOfAll o (ps ++ ls) := by
  have hlayout := layoutStyled_append o next (level + 1) Style.listParagraph ps ls
  obtain ⟨hlists, hemits⟩ := emits_continuations (o := o) (p := p) next (level + 1) hps
    (List.cons_ne_nil frame outer)
  rw [hlists, List.length_nil, Nat.add_zero] at hlayout
  rw [hlayout] at hnumbers ⊢
  rw [Layout.lists_append, hlists, List.nil_append] at hnumbers
  -- the list of the item is outside of the lists in it
  have hinner : ∀ f ∈ frame :: outer, f.level < level + 1 :=
    List.forall_mem_cons.mpr ⟨by omega, fun f hf => Nat.lt_succ_of_lt (houter f hf)⟩
  obtain ⟨pieces, ended, hpieces, hended, heq⟩ :=
    emits_lists hls hnext hnumbers (ended_nil _ _) hinner
  refine ⟨htmlOfAll o ps ++ pieces, ended, ?_, hended.lt_of_succ, ?_⟩
  · rw [Layout.items_append, List.map_append]
    exact hemits.append hpieces
  · rw [List.append_assoc, heq, htmlOfAll_eq_flatMap, htmlOfAll_eq_flatMap, htmlOfAll_eq_flatMap,
      List.flatMap_append]
    rfl

theorem ItemRendersAt.emits {level next n : Nat} {xs : List Inline} {blocks : List Block}
    (h : ItemRendersAt o p level (.paragraph xs :: blocks)) (hn : 0 < n) (hnext : 0 < next)
    (hnumbers : Numbers p next (layoutItem o next (level + 1) ⟨n, level⟩ xs blocks).lists)
    {c : Context} {opening : List Piece} {frame : ListFrame} {outer : List ListFrame}
    (hframe : frame.level = level) (houter : ∀ f ∈ outer, f.level < level)
    (hstep : ∀ content, c.listItem p (toString n) (toString level) content =
      (opening ++ Html.element "p" content, { lists := frame :: outer })) :
    ∃ pieces ended,
      Emits p c ((layoutItem o next (level + 1) ⟨n, level⟩ xs blocks).items.map LayoutItem.read)
        pieces { lists := ended ++ frame :: outer } ∧
      (∀ f ∈ ended, level < f.level) ∧
      pieces ++ closeFrames ended = opening ++ htmlOfAll o (.paragraph xs :: blocks) := by
  obtain ⟨xs', ps, ls, heq, hxs, hps, hls⟩ := h.parts
  obtain ⟨hx, rfl⟩ := List.cons.inj heq
  obtain rfl := Block.paragraph.inj hx
  let q : WrittenParagraph := { place := some ⟨n, level⟩, parts := partsAmong o {} xs }
  have hq := plain_spec o hxs (p := q) rfl
  -- the first paragraph opens the item as the given step says
  have hitem : c.step p (.paragraph q.read) =
      (opening ++ htmlOf o (.paragraph xs), { lists := frame :: outer }) := by
    rw [Context.step_numbered (numbering_of_place rfl hn), hstep, hq.2]
    rfl
  obtain ⟨pieces, ended, hpieces, hended, hhtml⟩ :=
    emits_content hps hls hnext hnumbers hframe houter
  refine ⟨_, ended, .cons hitem hpieces, hended, ?_⟩
  rw [List.append_assoc, hhtml, List.append_assoc, htmlOfAll]

/-- The items of a list after the first. -/
theorem emits_items {level next n : Nat} {items : List (List Block)}
    (h : ∀ blocks ∈ items, ItemRendersAt o p level blocks) (hlevel : level ≤ deepestLevel)
    (hn : 0 < n) (hnext : 0 < next)
    (hnumbers : Numbers p next (layoutItems o next (level + 1) ⟨n, level⟩ items).lists)
    {frame : ListFrame} {ended outer : List ListFrame} (hframe : frame.level = level)
    (hnumber : frame.numId = toString n) (hended : ∀ f ∈ ended, level < f.level)
    (houter : ∀ f ∈ outer, f.level < level) :
    ∃ pieces ended',
      Emits p { lists := ended ++ frame :: outer }
        ((layoutItems o next (level + 1) ⟨n, level⟩ items).items.map LayoutItem.read) pieces
        { lists := ended' ++ frame :: outer } ∧
      (∀ f ∈ ended', level < f.level) ∧
      pieces ++ (closeFrames ended' ++ [.finish "li"]) =
        closeFrames ended ++ [.finish "li"] ++ htmlOfItems o items := by
  induction items generalizing next ended with
  | nil => exact ⟨[], ended, .nil _, hended, (List.append_nil _).symm⟩
  | cons blocks items ih =>
    rw [List.forall_mem_cons] at h
    obtain ⟨xs, ps, ls, rfl, -⟩ := h.1.parts
    rw [layoutItems_cons] at hnumbers ⊢
    obtain ⟨ps', between, hps, hbetween, heq⟩ := h.1.emits hn hnext hnumbers.left hframe houter
      fun content => Context.listItem_next (c := { lists := ended ++ frame :: outer })
        (Context.levelNumber_toString hlevel) rfl hframe hnumber hended
    -- what the first item leaves open is closed by the item behind it
    obtain ⟨qs, ended', hqs, hended', heq'⟩ := ih h.2 (by omega) hnumbers.right hbetween
    refine ⟨ps' ++ qs, ended', ?_, hended', ?_⟩
    · rw [Layout.items_append, List.map_append]
      exact hps.append hqs
    · rw [List.append_assoc, heq', ← List.append_assoc, ← List.append_assoc, heq, htmlOfItems]
      simp [Context.heldBack, Context.codePieces, Context.quotePieces, Html.element]

/-- **A list is rendered as its HTML**, on any level at which there is room for all its levels. -/
theorem rendersAt_of_isPlainList {levels level : Nat} {b : Block}
    (h : isPlainList levels b = true) (hlevel : level + levels ≤ deepestLevel + 1) :
    RendersAt o p level b := by
  induction levels generalizing level b with
  | zero => cases h
  | succ levels ih =>
    obtain ⟨ordered, items, rfl, hne, hitems⟩ := exists_of_isPlainList h
    have hall : ∀ blocks ∈ items, ItemRendersAt o p level blocks := by
      intro blocks hb
      obtain ⟨xs, ps, ls, heq, hxs, hps, hls⟩ := hitems blocks hb
      exact ⟨xs, ps, ls, heq, hxs, hps, fun l hl => ih (hls l hl) (by omega)⟩
    refine ⟨fun xs => Block.noConfusion, ?_⟩
    intro next c ended outer hnext hnumbers hlists hended houter
    have hroom : level ≤ deepestLevel := by omega
    have hlayout : layoutBlock o next level (.list ordered items) =
        ⟨(layoutItems o (next + 1) (level + 1) ⟨next, level⟩ items).items,
          ordered :: (layoutItems o (next + 1) (level + 1) ⟨next, level⟩ items).lists⟩ := by
      rw [layoutBlock, Nat.min_eq_left hroom]
    obtain ⟨first, rest, rfl⟩ := List.exists_cons_of_ne_nil hne
    rw [List.forall_mem_cons] at hall
    obtain ⟨xs, ps', ls', rfl, -⟩ := hall.1.parts
    rw [hlayout, layoutItems_cons] at hnumbers ⊢
    have hordered : p.isOrdered (toString next) (toString level) = ordered :=
      hnumbers.head hroom
    have hinner := hnumbers.tail
    -- the first item opens the list, and the others follow in it
    let frame : ListFrame := ⟨toString next, level, ordered⟩
    have hframe : frame.level = level := rfl
    obtain ⟨ps, between, hps, hbetween, hfirst⟩ := hall.1.emits hnext (by omega) hinner.left
      hframe houter fun content => Context.listItem_first (Context.levelNumber_toString hroom)
        hordered hlists (hended.numId_ne le_rfl) houter
    obtain ⟨qs, ended', hqs, hended', hrest⟩ := emits_items hall.2 hroom hnext (by omega)
      hinner.right hframe rfl hbetween houter
    refine ⟨ps ++ qs, ended' ++ [frame], ?_, ?_, ?_⟩
    · rw [Layout.items_append, List.map_append, List.append_assoc]
      exact hps.append hqs
    · rw [Ended, List.forall_mem_append, List.forall_mem_singleton]
      exact ⟨fun f hf => .inl (hended' f hf), .inr ⟨rfl, next, by simp, rfl⟩⟩
    · have hclose : closeFrames [frame] = [.finish "li"] ++ [.finish (listTag ordered)] := rfl
      calc ps ++ qs ++ closeFrames (ended' ++ [frame])
          = ps ++ (qs ++ (closeFrames ended' ++ [.finish "li"])) ++
              [.finish (listTag ordered)] := by
            rw [closeFrames_append, hclose]
            simp only [List.append_assoc]
        _ = ps ++ closeFrames between ++ [.finish "li"] ++ htmlOfItems o rest ++
              [.finish (listTag ordered)] := by
            rw [hrest]
            simp only [List.append_assoc]
        _ = _ := by
            rw [hfirst, htmlOf, htmlOfItems]
            simp only [Html.element, List.append_assoc, List.cons_append, List.nil_append]

end Interdoc.Docx

import Interdoc.Proofs.Docx.RoundTrip

/-!
# Paragraphs behind nested lists

The further paragraphs of an item carry no number and no level.  They add to whatever item is
innermost when they come.  So a paragraph that stands behind a nested list in an item is read as the
last paragraph of the last item of that list, or of a list in it that stands last there, and so on
(`sink`).

On the way there the two cannot be told apart: a list and what it is read as have the same layout
(`layoutBlock_sink`), and what it is read as can be expressed (`isTidyList_sink`).
-/

namespace Interdoc.Docx

open Interdoc (Inline Block)

variable {o : Options}

/-! ### Sinking -/

/-- Whether a block is a paragraph. -/
def isParagraph : Block → Bool
  | .paragraph _ => true
  | _ => false

/-- Whether a block is a list. -/
def isList : Block → Bool
  | .list _ _ => true
  | _ => false

mutual

/-- A list that takes in paragraphs: they go into its last item. -/
def takeIn (ps : List Block) : Block → Block
  | .list ordered items => .list ordered (takeInLast ps items)
  | b => b

/-- Blocks of an item with paragraphs behind them, which a list takes in if it stands last. -/
def takeInAmong (ps : List Block) : List Block → List Block
  | [] => ps
  | b :: rest => if rest.isEmpty && isList b then [takeIn ps b] else b :: takeInAmong ps rest

/-- Items of a list, the last of which takes in paragraphs. -/
def takeInLast (ps : List Block) : List (List Block) → List (List Block)
  | [] => []
  | blocks :: items =>
    if items.isEmpty then [takeInAmong ps blocks] else blocks :: takeInLast ps items

end

mutual

/-- A block as it is read.  In the items of a list, each nested list takes in the paragraphs that
follow it. -/
def sink : Block → Block
  | .list ordered items => .list ordered (sinkItems items)
  | b => b

/-- The items of a list as they are read. -/
def sinkItems : List (List Block) → List (List Block)
  | [] => []
  | blocks :: items => sinkAmong blocks :: sinkItems items

/-- The blocks of an item as they are read. -/
def sinkAmong : List Block → List Block
  | [] => []
  | b :: rest =>
    let rest := sinkAmong rest
    if isList b then takeIn (rest.takeWhile isParagraph) (sink b) :: rest.dropWhile isParagraph
    else sink b :: rest

end

-- the last paragraph goes through both lists
example : sink (.list false [[.paragraph [.text "a"],
      .list true [[.paragraph [.text "b"], .list true [[.paragraph [.text "c"]]]]],
      .paragraph [.text "d"]]]) =
    .list false [[.paragraph [.text "a"],
      .list true [[.paragraph [.text "b"],
        .list true [[.paragraph [.text "c"], .paragraph [.text "d"]]]]]]] := by decide

/-! ### Lists of paragraphs and lists -/

/-- Whether a block is a list of at most so many levels: there is an item, and each item is a
paragraph and then paragraphs and lists in any order. -/
def isItemList : (levels : Nat) → Block → Bool
  | levels + 1, .list _ items =>
    !items.isEmpty && items.all fun blocks =>
      blocks.head?.any isPlainParagraph &&
        blocks.all fun b => isPlainParagraph b || isItemList levels b
  | _, _ => false

/-- The items of such a list. -/
theorem exists_of_isItemList {levels : Nat} {b : Block} (h : isItemList (levels + 1) b = true) :
    ∃ ordered items, b = .list ordered items ∧ items ≠ [] ∧
      ∀ blocks ∈ items, ∃ xs rest, blocks = .paragraph xs :: rest ∧ isPlainInlines xs = true ∧
        ∀ b ∈ rest, isPlainParagraph b = true ∨ isItemList levels b = true := by
  cases b with
  | list ordered items =>
    rw [isItemList, Bool.and_eq_true, List.all_eq_true] at h
    refine ⟨ordered, items, rfl, by simpa using h.1, fun blocks hblocks => ?_⟩
    have hitem := h.2 blocks hblocks
    rw [Bool.and_eq_true, List.all_eq_true] at hitem
    obtain _ | ⟨b, rest⟩ := blocks
    · cases hitem.1
    have hplain : isPlainParagraph b = true := hitem.1
    obtain ⟨xs, rfl, hxs⟩ := exists_of_isPlainParagraph hplain
    refine ⟨xs, rest, rfl, hxs, fun b hb => ?_⟩
    simpa using hitem.2 b (List.mem_cons_of_mem _ hb)
  | paragraph | heading | quote | code | rule | table => cases h

theorem isList_of_isItemList {levels : Nat} {b : Block} (h : isItemList levels b = true) :
    isList b = true := by
  cases levels with
  | zero => cases h
  | succ levels =>
    obtain ⟨ordered, items, rfl, -⟩ := exists_of_isItemList h
    rfl

/-- A paragraph of plain text in normal form. -/
def IsTidyParagraph (b : Block) : Prop :=
  isPlainParagraph b = true ∧ b.IsNormal

/-- A list that a package can express, in normal form. -/
def IsTidyList (levels : Nat) (b : Block) : Prop :=
  isPlainList levels b = true ∧ b.IsNormal

/-- An item of such a list: paragraphs, and then lists. -/
def IsTidyItem (levels : Nat) (blocks : List Block) : Prop :=
  ∃ xs ps ls, blocks = .paragraph xs :: (ps ++ ls) ∧ IsTidyParagraph (.paragraph xs) ∧
    (∀ p ∈ ps, IsTidyParagraph p) ∧ ∀ l ∈ ls, IsTidyList levels l

section

variable {levels : Nat}

theorem IsTidyParagraph.isParagraph {b : Block} (h : IsTidyParagraph b) :
    isParagraph b = true ∧ isList b = false := by
  obtain ⟨xs, rfl, -⟩ := exists_of_isPlainParagraph h.1
  exact ⟨rfl, rfl⟩

theorem IsTidyList.isList {b : Block} (h : IsTidyList levels b) :
    isParagraph b = false ∧ isList b = true := by
  cases levels with
  | zero => cases h.1
  | succ levels =>
    obtain ⟨ordered, items, rfl, -⟩ := exists_of_isPlainList h.1
    exact ⟨rfl, rfl⟩

theorem IsTidyItem.isNormal {blocks : List Block} (h : IsTidyItem levels blocks) :
    blocks ≠ [] ∧ Block.IsNormalList blocks := by
  obtain ⟨xs, ps, ls, rfl, hxs, hps, hls⟩ := h
  refine ⟨List.cons_ne_nil _ _, hxs.2, ?_⟩
  rw [Block.isNormalList_iff]
  exact List.forall_mem_append.mpr ⟨fun p hp => (hps p hp).2, fun l hl => (hls l hl).2⟩

/-- A list is tidy if all its items are, and there is one. -/
theorem isTidyList_list {ordered : Bool} {items : List (List Block)} (hne : items ≠ [])
    (h : ∀ blocks ∈ items, IsTidyItem levels blocks) :
    IsTidyList (levels + 1) (.list ordered items) := by
  constructor
  · rw [isPlainList, Bool.and_eq_true, List.all_eq_true]
    refine ⟨by simpa using hne, fun blocks hblocks => ?_⟩
    obtain ⟨xs, ps, ls, rfl, hxs, hps, hls⟩ := h blocks hblocks
    -- what is left behind the paragraphs are the lists
    have hparagraphs : ∀ p ∈ Block.paragraph xs :: ps, isPlainParagraph p = true :=
      List.forall_mem_cons.mpr ⟨hxs.1, fun p hp => (hps p hp).1⟩
    have hdrop : (Block.paragraph xs :: (ps ++ ls)).dropWhile isPlainParagraph = ls := by
      rw [← List.cons_append, List.dropWhile_append_of_pos hparagraphs]
      cases ls with
      | nil => rfl
      | cons l ls =>
        rw [List.dropWhile_cons_of_neg]
        intro hl
        obtain ⟨ys, rfl, -⟩ := exists_of_isPlainParagraph hl
        exact Bool.false_ne_true (hls _ List.mem_cons_self).isList.2
    rw [hdrop, Bool.and_eq_true, List.all_eq_true]
    exact ⟨hxs.1, fun l hl => (hls l hl).1⟩
  · rw [Block.IsNormal, Block.isNormalItems_iff]
    exact fun blocks hblocks => (h blocks hblocks).isNormal

/-- The items of a tidy list. -/
theorem IsTidyList.exists_items {b : Block} (h : IsTidyList (levels + 1) b) :
    ∃ ordered items, b = .list ordered items ∧ items ≠ [] ∧
      ∀ blocks ∈ items, IsTidyItem levels blocks := by
  obtain ⟨ordered, items, rfl, hne, hitems⟩ := exists_of_isPlainList h.1
  refine ⟨ordered, items, rfl, hne, fun blocks hblocks => ?_⟩
  have hnormal : ∀ b ∈ blocks, b.IsNormal :=
    Block.isNormalList_iff.mp (Block.isNormalItems_iff.mp h.2 blocks hblocks).2
  obtain ⟨xs, ps, ls, rfl, hxs, hps, hls⟩ := hitems blocks hblocks
  rw [List.forall_mem_cons, List.forall_mem_append] at hnormal
  obtain ⟨hfirst, hparagraphs, hlists⟩ := hnormal
  exact ⟨xs, ps, ls, rfl, ⟨hxs, hfirst⟩, fun p hp => ⟨hps p hp, hparagraphs p hp⟩,
    fun l hl => ⟨hls l hl, hlists l hl⟩⟩

end

/-! ### What takes in paragraphs -/

section

variable {levels : Nat} {qs : List Block}

/-- Paragraphs that stand first take in nothing. -/
theorem takeInAmong_append {ps : List Block} (h : ∀ p ∈ ps, IsTidyParagraph p)
    (blocks : List Block) : takeInAmong qs (ps ++ blocks) = ps ++ takeInAmong qs blocks := by
  induction ps with
  | nil => rfl
  | cons p ps ih =>
    rw [List.forall_mem_cons] at h
    rw [List.cons_append, takeInAmong, h.1.isParagraph.2, Bool.and_false, ih h.2]
    rfl

/-- A list that stands last takes in all. -/
theorem takeInAmong_concat {l : Block} (h : isList l = true) (blocks : List Block) :
    takeInAmong qs (blocks ++ [l]) = blocks ++ [takeIn qs l] := by
  induction blocks with
  | nil =>
    rw [List.nil_append, takeInAmong, h]
    rfl
  | cons b blocks ih =>
    have hne : (blocks ++ [l]).isEmpty = false := by simp
    rw [List.cons_append, takeInAmong, hne, Bool.false_and, ih]
    rfl

theorem takeInLast_concat (items : List (List Block)) (blocks : List Block) :
    takeInLast qs (items ++ [blocks]) = items ++ [takeInAmong qs blocks] := by
  induction items with
  | nil => rfl
  | cons first items ih =>
    have hne : (items ++ [blocks]).isEmpty = false := by simp
    rw [List.cons_append, takeInLast, hne, ih]
    rfl

/-- **A tidy list that takes in paragraphs is tidy.** -/
theorem IsTidyList.takeIn (hqs : ∀ q ∈ qs, IsTidyParagraph q) {b : Block}
    (h : IsTidyList levels b) : IsTidyList levels (takeIn qs b) := by
  induction levels generalizing b with
  | zero => cases h.1
  | succ levels ih =>
    obtain ⟨ordered, items, rfl, hne, hitems⟩ := h.exists_items
    obtain ⟨items, blocks, rfl⟩ := (List.eq_nil_or_concat' items).resolve_left hne
    rw [List.forall_mem_append, List.forall_mem_singleton] at hitems
    obtain ⟨hitems, xs, ps, ls, rfl, hxs, hps, hls⟩ := hitems
    -- only the last item changes, and of that only the end
    have hlast : IsTidyItem levels (takeInAmong qs (.paragraph xs :: (ps ++ ls))) := by
      have hparagraphs : ∀ p ∈ Block.paragraph xs :: ps, IsTidyParagraph p :=
        List.forall_mem_cons.mpr ⟨hxs, hps⟩
      rw [← List.cons_append, takeInAmong_append hparagraphs]
      obtain rfl | ⟨ls, l, rfl⟩ := List.eq_nil_or_concat' ls
      · refine ⟨xs, ps ++ qs, [], ?_, hxs, List.forall_mem_append.mpr ⟨hps, hqs⟩,
          List.forall_mem_nil _⟩
        rw [List.append_nil]
        rfl
      · rw [List.forall_mem_append, List.forall_mem_singleton] at hls
        refine ⟨xs, ps, ls ++ [Docx.takeIn qs l], ?_, hxs, hps, ?_⟩
        · rw [takeInAmong_concat hls.2.isList.2]
          rfl
        · exact List.forall_mem_append.mpr ⟨hls.1, List.forall_mem_singleton.mpr (ih hls.2)⟩
    rw [Docx.takeIn, takeInLast_concat]
    exact isTidyList_list (by simp)
      (List.forall_mem_append.mpr ⟨hitems, List.forall_mem_singleton.mpr hlast⟩)

end

/-! ### What a list is read as -/

section

variable {levels : Nat}

/-- Of paragraphs and then lists, the paragraphs come first. -/
theorem span_isParagraph {ps ls : List Block} (hps : ∀ p ∈ ps, IsTidyParagraph p)
    (hls : ∀ l ∈ ls, IsTidyList levels l) :
    (ps ++ ls).takeWhile isParagraph = ps ∧ (ps ++ ls).dropWhile isParagraph = ls := by
  have hparagraphs : ∀ p ∈ ps, isParagraph p = true := fun p hp => (hps p hp).isParagraph.1
  have hlists : ls.takeWhile isParagraph = [] ∧ ls.dropWhile isParagraph = ls := by
    cases ls with
    | nil => exact ⟨rfl, rfl⟩
    | cons l ls =>
      have hl : ¬ isParagraph l = true := by simp [(hls l List.mem_cons_self).isList.1]
      exact ⟨List.takeWhile_cons_of_neg hl, List.dropWhile_cons_of_neg hl⟩
  rw [List.takeWhile_append_of_pos hparagraphs, List.dropWhile_append_of_pos hparagraphs, hlists.1,
    hlists.2, List.append_nil]
  exact ⟨rfl, rfl⟩

/-- A block of an item is kept if it is no list. -/
theorem sinkAmong_paragraph {b : Block} (h : isPlainParagraph b = true) (rest : List Block) :
    sinkAmong (b :: rest) = b :: sinkAmong rest := by
  obtain ⟨xs, rfl, -⟩ := exists_of_isPlainParagraph h
  rfl

/-- A list takes in the paragraphs that stand behind it. -/
theorem sinkAmong_list {b : Block} (h : isList b = true) {rest ps ls : List Block}
    (hrest : sinkAmong rest = ps ++ ls) (hps : ∀ p ∈ ps, IsTidyParagraph p)
    (hls : ∀ l ∈ ls, IsTidyList levels l) :
    sinkAmong (b :: rest) = takeIn ps (sink b) :: ls := by
  rw [sinkAmong, if_pos h, hrest, (span_isParagraph hps hls).1, (span_isParagraph hps hls).2]

/-- What stands in an item is read as paragraphs and then lists, if lists are read as such. -/
theorem sinkAmong_spec
    (ih : ∀ b, isItemList levels b = true → b.IsNormal → IsTidyList levels (sink b))
    {blocks : List Block}
    (h : ∀ b ∈ blocks, isPlainParagraph b = true ∨ isItemList levels b = true)
    (hn : ∀ b ∈ blocks, b.IsNormal) :
    ∃ ps ls, sinkAmong blocks = ps ++ ls ∧ (∀ p ∈ ps, IsTidyParagraph p) ∧
      ∀ l ∈ ls, IsTidyList levels l := by
  induction blocks with
  | nil => exact ⟨[], [], rfl, List.forall_mem_nil _, List.forall_mem_nil _⟩
  | cons b blocks hblocks =>
    rw [List.forall_mem_cons] at h hn
    obtain ⟨ps, ls, hrest, hps, hls⟩ := hblocks h.2 hn.2
    obtain hb | hb := h.1
    · refine ⟨b :: ps, ls, ?_, List.forall_mem_cons.mpr ⟨⟨hb, hn.1⟩, hps⟩, hls⟩
      rw [sinkAmong_paragraph hb, hrest]
      rfl
    · refine ⟨[], takeIn ps (sink b) :: ls, ?_, List.forall_mem_nil _, ?_⟩
      · rw [sinkAmong_list (isList_of_isItemList hb) hrest hps hls]
        rfl
      · exact List.forall_mem_cons.mpr ⟨(ih b hb hn.1).takeIn hps, hls⟩

theorem sinkItems_eq_map (items : List (List Block)) :
    sinkItems items = items.map sinkAmong := by
  induction items with
  | nil => rfl
  | cons blocks items ih => rw [sinkItems, ih, List.map_cons]

/-- **What a list is read as can be expressed.** -/
theorem isTidyList_sink {b : Block} (h : isItemList levels b = true) (hn : b.IsNormal) :
    IsTidyList levels (sink b) := by
  induction levels generalizing b with
  | zero => cases h
  | succ levels ih =>
    obtain ⟨ordered, items, rfl, hne, hitems⟩ := exists_of_isItemList h
    rw [sink, sinkItems_eq_map]
    refine isTidyList_list (by simpa using hne) (List.forall_mem_map.mpr fun blocks hblocks => ?_)
    have hnormal : ∀ b ∈ blocks, b.IsNormal :=
      Block.isNormalList_iff.mp (Block.isNormalItems_iff.mp hn blocks hblocks).2
    obtain ⟨xs, rest, rfl, hxs, hrest⟩ := hitems blocks hblocks
    rw [List.forall_mem_cons] at hnormal
    obtain ⟨ps, ls, heq, hps, hls⟩ := sinkAmong_spec (fun b => ih) hrest hnormal.2
    refine ⟨xs, ps, ls, ?_, ⟨hxs, hnormal.1⟩, hps, hls⟩
    rw [sinkAmong_paragraph (b := .paragraph xs) hxs, heq]

theorem takeIn_nil {b : Block} (h : IsTidyList levels b) : takeIn [] b = b := by
  induction levels generalizing b with
  | zero => cases h.1
  | succ levels ih =>
    obtain ⟨ordered, items, rfl, hne, hitems⟩ := h.exists_items
    obtain ⟨items, blocks, rfl⟩ := (List.eq_nil_or_concat' items).resolve_left hne
    rw [List.forall_mem_append, List.forall_mem_singleton] at hitems
    obtain ⟨-, xs, ps, ls, rfl, hxs, hps, hls⟩ := hitems
    rw [takeIn, takeInLast_concat, ← List.cons_append,
      takeInAmong_append (List.forall_mem_cons.mpr ⟨hxs, hps⟩)]
    obtain rfl | ⟨ls, l, rfl⟩ := List.eq_nil_or_concat' ls
    · rfl
    · rw [List.forall_mem_append, List.forall_mem_singleton] at hls
      rw [takeInAmong_concat hls.2.isList.2, ih hls.2]

/-- Lists are kept if nothing stands behind them. -/
theorem sinkAmong_lists (ih : ∀ l, IsTidyList levels l → sink l = l) {ls : List Block}
    (hls : ∀ l ∈ ls, IsTidyList levels l) : sinkAmong ls = ls := by
  induction ls with
  | nil => rfl
  | cons l ls hrest =>
    rw [List.forall_mem_cons] at hls
    have heq : sinkAmong ls = [] ++ ls := hrest hls.2
    rw [sinkAmong_list hls.1.isList.2 heq (List.forall_mem_nil _) hls.2, ih l hls.1,
      takeIn_nil hls.1]

theorem sinkAmong_eq_self (ih : ∀ l, IsTidyList levels l → sink l = l) {ps ls : List Block}
    (hps : ∀ p ∈ ps, IsTidyParagraph p) (hls : ∀ l ∈ ls, IsTidyList levels l) :
    sinkAmong (ps ++ ls) = ps ++ ls := by
  induction ps with
  | nil => exact sinkAmong_lists ih hls
  | cons p ps hrest =>
    rw [List.forall_mem_cons] at hps
    rw [List.cons_append, sinkAmong_paragraph hps.1.1, hrest hps.2]

/-- A list that can be expressed is read as it is. -/
theorem sink_eq_self {b : Block} (h : IsTidyList levels b) : sink b = b := by
  induction levels generalizing b with
  | zero => cases h.1
  | succ levels ih =>
    obtain ⟨ordered, items, rfl, -, hitems⟩ := h.exists_items
    rw [sink, sinkItems_eq_map]
    refine congrArg (Block.list ordered) ((List.map_congr_left fun blocks hblocks => ?_).trans
      (List.map_id' items))
    obtain ⟨xs, ps, ls, rfl, hxs, hps, hls⟩ := hitems blocks hblocks
    have hparagraphs : ∀ p ∈ Block.paragraph xs :: ps, IsTidyParagraph p :=
      List.forall_mem_cons.mpr ⟨hxs, hps⟩
    exact sinkAmong_eq_self (fun l hl => ih hl) hparagraphs hls

end

/-! ### Layouts -/

/-- The layout of further paragraphs. -/
def further (o : Options) (ps : List Block) : Layout :=
  ⟨ps.map fun
    | .paragraph xs =>
      .paragraph { style := some Style.listParagraph, parts := partsAmong o {} xs }
    | _ => .paragraph {}, []⟩

/-- Further paragraphs are laid out without a number, on any level. -/
theorem layoutStyled_further {ps : List Block} (h : ∀ p ∈ ps, IsTidyParagraph p)
    (next depth : Nat) : layoutStyled o next depth Style.listParagraph ps = further o ps := by
  induction ps with
  | nil => rfl
  | cons p ps ih =>
    rw [List.forall_mem_cons] at h
    obtain ⟨xs, rfl, -⟩ := exists_of_isPlainParagraph h.1.1
    rw [layoutStyled_cons]
    exact (congrArg _ (ih h.2)).trans rfl

theorem Layout.append_empty (l : Layout) : l ++ .empty = l :=
  congrArg₂ Layout.mk (List.append_nil _) (List.append_nil _)

theorem styledBlock_list {l : Block} (h : isList l = true) (next depth : Nat) (style : String) :
    styledBlock o next depth style l = layoutBlock o next depth l := by
  cases l with
  | list ordered items => rfl
  | paragraph | heading | quote | code | rule | table => cases h

theorem layoutStyled_singleton {l : Block} (h : isList l = true) (next depth : Nat)
    (style : String) :
    layoutStyled o next depth style [l] = layoutBlock o next depth l := by
  rw [layoutStyled_cons, styledBlock_list h]
  exact Layout.append_empty _

theorem layoutItems_singleton (next depth : Nat) (place : ListPlace) (xs : List Inline)
    (blocks : List Block) :
    layoutItems o next depth place [.paragraph xs :: blocks] =
      .paragraph o { place := some place } xs ++
        layoutStyled o next depth Style.listParagraph blocks :=
  Layout.append_empty _

section

variable {levels : Nat} {qs : List Block}

/-- The items after the first are laid out alike, if the last is. -/
theorem layoutItems_takeInLast {depth : Nat} {place : ListPlace} {blocks : List Block}
    (h : ∀ next, layoutItems o next depth place [takeInAmong qs blocks] =
      layoutItems o next depth place [blocks] ++ further o qs)
    {items : List (List Block)} (hitems : ∀ blocks ∈ items, IsTidyItem levels blocks)
    (next : Nat) :
    layoutItems o next depth place (items ++ [takeInAmong qs blocks]) =
      layoutItems o next depth place (items ++ [blocks]) ++ further o qs := by
  induction items generalizing next with
  | nil => exact h next
  | cons first items ih =>
    rw [List.forall_mem_cons] at hitems
    obtain ⟨xs, ps, ls, rfl, -⟩ := hitems.1
    rw [List.cons_append, List.cons_append, layoutItems_cons, layoutItems_cons, ih hitems.2,
      Layout.append_assoc]

/-- **A list that takes in paragraphs has the layout of the list and then the paragraphs.** -/
theorem layoutBlock_takeIn (hqs : ∀ q ∈ qs, IsTidyParagraph q) {b : Block}
    (h : IsTidyList levels b) (next depth : Nat) :
    layoutBlock o next depth (takeIn qs b) = layoutBlock o next depth b ++ further o qs := by
  induction levels generalizing b next depth with
  | zero => cases h.1
  | succ levels ih =>
    obtain ⟨ordered, items, rfl, hne, hitems⟩ := h.exists_items
    obtain ⟨items, blocks, rfl⟩ := (List.eq_nil_or_concat' items).resolve_left hne
    rw [List.forall_mem_append, List.forall_mem_singleton] at hitems
    obtain ⟨hitems, xs, ps, ls, rfl, hxs, hps, hls⟩ := hitems
    have hlast (place : ListPlace) (next : Nat) :
        layoutItems o next (depth + 1) place [takeInAmong qs (.paragraph xs :: (ps ++ ls))] =
          layoutItems o next (depth + 1) place [.paragraph xs :: (ps ++ ls)] ++ further o qs := by
      have hparagraphs : ∀ p ∈ Block.paragraph xs :: ps, IsTidyParagraph p :=
        List.forall_mem_cons.mpr ⟨hxs, hps⟩
      have htake : takeInAmong qs (.paragraph xs :: (ps ++ ls)) =
          .paragraph xs :: (ps ++ takeInAmong qs ls) := takeInAmong_append hparagraphs ls
      rw [htake, layoutItems_singleton, layoutItems_singleton, Layout.append_assoc]
      congr 1
      -- the last list of the last item takes them in turn, and without one the item takes them
      obtain rfl | ⟨ls, l, rfl⟩ := List.eq_nil_or_concat' ls
      · rw [List.append_nil, takeInAmong, layoutStyled_append, layoutStyled_further hqs]
      · rw [List.forall_mem_append, List.forall_mem_singleton] at hls
        rw [takeInAmong_concat hls.2.isList.2, ← List.append_assoc, ← List.append_assoc,
          layoutStyled_append, layoutStyled_append o next (depth + 1) _ (ps ++ ls) [l],
          layoutStyled_singleton (hls.2.takeIn hqs).isList.2, layoutStyled_singleton hls.2.isList.2,
          ih hls.2, Layout.append_assoc]
    rw [takeIn, takeInLast_concat, layoutBlock, layoutItems_takeInLast (hlast _) hitems,
      layoutBlock]
    rfl

/-- The blocks of an item and what they are read as have the same layout, if lists do. -/
theorem layoutStyled_sinkAmong {depth : Nat}
    (ih : ∀ b, isItemList levels b = true → b.IsNormal →
      IsTidyList levels (sink b) ∧ ∀ next, layoutBlock o next depth (sink b) =
        layoutBlock o next depth b)
    {blocks : List Block}
    (h : ∀ b ∈ blocks, isPlainParagraph b = true ∨ isItemList levels b = true)
    (hn : ∀ b ∈ blocks, b.IsNormal) (next : Nat) :
    layoutStyled o next depth Style.listParagraph (sinkAmong blocks) =
      layoutStyled o next depth Style.listParagraph blocks := by
  induction blocks generalizing next with
  | nil => rfl
  | cons b blocks hblocks =>
    rw [List.forall_mem_cons] at h hn
    obtain hb | hb := h.1
    · rw [sinkAmong_paragraph hb, layoutStyled_cons, layoutStyled_cons, hblocks h.2 hn.2]
    -- the paragraphs behind a list are written behind its items, as its own would be
    · obtain ⟨ps, ls, hrest, hps, hls⟩ := sinkAmong_spec (fun b hb hn => (ih b hb hn).1) h.2 hn.2
      obtain ⟨htidy, hlayout⟩ := ih b hb hn.1
      have hlist := isList_of_isItemList hb
      rw [sinkAmong_list hlist hrest hps hls, layoutStyled_cons, layoutStyled_cons,
        styledBlock_list hlist, styledBlock_list (htidy.takeIn hps).isList.2,
        layoutBlock_takeIn hps htidy, hlayout, ← hblocks h.2 hn.2, hrest, layoutStyled_append,
        layoutStyled_further hps, Layout.append_assoc, Layout.lists_append, List.length_append,
        Nat.add_assoc]

/-- **A list and what it is read as have the same layout.** -/
theorem layoutBlock_sink {b : Block} (h : isItemList levels b = true) (hn : b.IsNormal)
    (next depth : Nat) : layoutBlock o next depth (sink b) = layoutBlock o next depth b := by
  induction levels generalizing b next depth with
  | zero => cases h
  | succ levels ih =>
    obtain ⟨ordered, items, rfl, -, hitems⟩ := exists_of_isItemList h
    have hnormal := Block.isNormalItems_iff.mp hn
    -- item by item, whatever lists are in them
    have hlayout (next : Nat) (place : ListPlace) :
        layoutItems o next (depth + 1) place (items.map sinkAmong) =
          layoutItems o next (depth + 1) place items := by
      clear h hn
      induction items generalizing next with
      | nil => rfl
      | cons blocks items hrest =>
        rw [List.forall_mem_cons] at hitems hnormal
        obtain ⟨⟨xs, rest, rfl, hxs, hblocks⟩, hitems⟩ := hitems
        have hsame (next : Nat) :
            layoutStyled o next (depth + 1) Style.listParagraph (sinkAmong rest) =
              layoutStyled o next (depth + 1) Style.listParagraph rest :=
          layoutStyled_sinkAmong (fun b hb hn => ⟨isTidyList_sink hb hn, fun n => ih hb hn n _⟩)
            hblocks (Block.isNormalList_iff.mp hnormal.1.2.2) next
        rw [List.map_cons, sinkAmong_paragraph (b := .paragraph xs) hxs, layoutItems_cons,
          layoutItems_cons, layoutItem, layoutItem, hsame, hrest hitems hnormal.2]
    rw [sink, sinkItems_eq_map, layoutBlock, layoutBlock, hlayout]

end

/-! ### Documents -/

/-- Whether a block keeps its form in a package but for paragraphs behind nested lists. -/
def isLooseBlock (b : Block) : Bool :=
  isPlainBlock b || isItemList (deepestLevel + 1) b

/-- A document of such blocks, in normal form, with blocks that stay apart. -/
structure Loose (d : Document) : Prop where
  normal : d.normalize = d
  blocks : ∀ b ∈ d.blocks, isLooseBlock b = true
  apart : d.blocks.IsChain fun a b => stayApart a b = true

instance (d : Document) : Decidable (Loose d) :=
  decidable_of_iff (d.normalize = d ∧ (∀ b ∈ d.blocks, isLooseBlock b = true) ∧
      d.blocks.IsChain fun a b => stayApart a b = true)
    ⟨fun h => ⟨h.1, h.2.1, h.2.2⟩, fun h => ⟨h.normal, h.blocks, h.apart⟩⟩

/-- A document as it is read. -/
def sunk (d : Document) : Document :=
  ⟨d.blocks.map sink⟩

theorem sink_eq_self_of_isPlainBlock {b : Block} (h : isPlainBlock b = true) (hn : b.IsNormal) :
    sink b = b := by
  cases b with
  | list ordered items => exact sink_eq_self ⟨h, hn⟩
  | paragraph | heading | quote | code | rule | table => rfl

theorem stayApart_sink (a b : Block) : stayApart (sink a) (sink b) = stayApart a b := by
  cases a <;> cases b <;> rfl

/-- What a block is read as can be expressed, and has the same layout. -/
theorem sink_spec {b : Block} (h : isLooseBlock b = true) (hn : b.IsNormal) :
    isPlainBlock (sink b) = true ∧ (sink b).IsNormal ∧
      ∀ next, layoutBlock o next 0 (sink b) = layoutBlock o next 0 b := by
  rw [isLooseBlock, Bool.or_eq_true] at h
  obtain hplain | hlist := h
  · rw [sink_eq_self_of_isPlainBlock hplain hn]
    exact ⟨hplain, hn, fun _ => rfl⟩
  · have htidy := isTidyList_sink hlist hn
    refine ⟨?_, htidy.2, fun next => layoutBlock_sink hlist hn next 0⟩
    have hplain := htidy.1
    obtain ⟨ordered, items, heq, -⟩ := exists_of_isPlainList hplain
    rw [heq] at hplain ⊢
    exact hplain

theorem layoutBlocks_sink {blocks : List Block} (h : ∀ b ∈ blocks, isLooseBlock b = true)
    (hn : ∀ b ∈ blocks, b.IsNormal) (next : Nat) :
    layoutBlocks o next (blocks.map sink) = layoutBlocks o next blocks := by
  induction blocks generalizing next with
  | nil => rfl
  | cons b blocks ih =>
    rw [List.forall_mem_cons] at h hn
    rw [List.map_cons, layoutBlocks, layoutBlocks, (sink_spec h.1 hn.1).2.2, ih h.2 hn.2]

section

variable {d : Document} (h : Loose d)

include h

theorem Loose.isNormal : ∀ b ∈ d.blocks, b.IsNormal :=
  Block.isNormalList_iff.mp ((Document.isNormal_iff d).mpr h.normal)

theorem Loose.expressible_sunk : Expressible (sunk d) where
  normal := by
    refine (Document.isNormal_iff _).mp (Block.isNormalList_iff.mpr ?_)
    exact List.forall_mem_map.mpr fun b hb =>
      (sink_spec (o := .standard) (h.blocks b hb) (h.isNormal b hb)).2.1
  blocks := List.forall_mem_map.mpr fun b hb =>
    (sink_spec (o := .standard) (h.blocks b hb) (h.isNormal b hb)).1
  apart := by
    have hapart := h.apart
    simp only [sunk, List.isChain_map, stayApart_sink]
    exact hapart

theorem Loose.layout_sunk (o : Options) : Document.layout o (sunk d) = Document.layout o d :=
  layoutBlocks_sink h.blocks h.isNormal firstList

/-- Exactly what can be expressed is read as it is. -/
theorem Loose.sunk_eq_iff : sunk d = d ↔ Expressible d := by
  constructor
  · intro heq
    rw [← heq]
    exact h.expressible_sunk
  · intro hd
    have hblocks : d.blocks.map sink = d.blocks :=
      (List.map_congr_left fun b hb =>
        sink_eq_self_of_isPlainBlock (hd.blocks b hb) (h.isNormal b hb)).trans (List.map_id' _)
    rw [sunk, hblocks]

end

/-- A document of items is read as its sunk form. -/
theorem Loose.parse?_write (h : Loose d) (hlength : (write o d).length < 2 ^ 32) :
    parse? (write o d) = .ok (sunk d) := by
  have hwrite : write o d = write o (sunk d) := by rw [write_eq, write_eq, h.layout_sunk]
  rw [hwrite] at hlength ⊢
  exact h.expressible_sunk.parse?_write hlength

end Interdoc.Docx

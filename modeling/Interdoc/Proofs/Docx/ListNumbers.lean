import Interdoc.Proofs.Docx.ListRendering
import Interdoc.Proofs.Docx.Opening

/-!
# The numbers of written lists

A written document numbers its lists in the order in which they begin (`listNodes`), from
`firstList` on.  The paragraphs with the number of a list are one for each of its items, in order,
at the level of the list (`layout_numbers_lists`), and the numbering part has the format of the list
for that level.

A layout that does this for its own lists is said to have them (`HasLists`).  Layouts that follow
each other have the lists of both, since later lists have greater numbers (`HasLists.append`), and
for the same reason the paragraphs of a list stay together however many lists there are in its items
(`numbered_items`).

A layout is a function of the next number and the level.  A writer that keeps both while it goes
through the blocks (`Writer`) counts the level up and down, and writes the same (`Writer.block_eq`).
-/

namespace Interdoc.Docx

open Interdoc (Inline Block Alignment)

/-! ### Blocks in blocks -/

/-- The cases of an induction on a block, with a hypothesis for all blocks in its items or in a
quote. -/
structure NestedCases (P : Block → Prop) : Prop where
  paragraph (inlines : List Inline) : P (.paragraph inlines)
  heading (level : Nat) (inlines : List Inline) : P (.heading level inlines)
  list (ordered : Bool) (items : List (List Block)) :
    (∀ blocks ∈ items, ∀ b ∈ blocks, P b) → P (.list ordered items)
  quote (blocks : List Block) : (∀ b ∈ blocks, P b) → P (.quote blocks)
  code (text : String) (language : Option String) : P (.code text language)
  rule : P .rule
  table (header : Option (List (List Block))) (rows : List (List (List Block)))
    (alignments : Option (List Alignment)) : P (.table header rows alignments)

mutual

theorem NestedCases.block {P : Block → Prop} (h : NestedCases P) : ∀ b, P b
  | .paragraph inlines => h.paragraph inlines
  | .heading level inlines => h.heading level inlines
  | .list ordered items => h.list ordered items (h.items items)
  | .quote blocks => h.quote blocks (h.blocks blocks)
  | .code text language => h.code text language
  | .rule => h.rule
  | .table header rows alignments => h.table header rows alignments

theorem NestedCases.blocks {P : Block → Prop} (h : NestedCases P) :
    ∀ blocks : List Block, ∀ b ∈ blocks, P b
  | [] => List.forall_mem_nil _
  | b :: rest => List.forall_mem_cons.mpr ⟨h.block b, h.blocks rest⟩

theorem NestedCases.items {P : Block → Prop} (h : NestedCases P) :
    ∀ items : List (List Block), ∀ blocks ∈ items, ∀ b ∈ blocks, P b
  | [] => List.forall_mem_nil _
  | blocks :: rest => List.forall_mem_cons.mpr ⟨h.blocks blocks, h.items rest⟩

end

/-! ### Items -/

/-- The inlines of the numbered paragraph of an item: those of its first block, if that is a
paragraph. -/
def leadingInlines : List Block → List Inline
  | .paragraph inlines :: _ => inlines
  | _ => []

/-- The blocks of an item behind its numbered paragraph. -/
def followingBlocks : List Block → List Block
  | .paragraph _ :: blocks => blocks
  | blocks => blocks

theorem followingBlocks_subset (blocks : List Block) : followingBlocks blocks ⊆ blocks := by
  rw [followingBlocks.eq_def]
  split
  · exact List.subset_cons_self _ _
  · exact List.Subset.refl _

theorem layoutItems_cons_eq (o : Options) (next depth : Nat) (place : ListPlace)
    (blocks : List Block) (items : List (List Block)) :
    layoutItems o next depth place (blocks :: items) =
      layoutItem o next depth place (leadingInlines blocks) (followingBlocks blocks) ++
        layoutItems o (next + (layoutItem o next depth place (leadingInlines blocks)
          (followingBlocks blocks)).lists.length) depth place items := by
  cases blocks with
  | nil => rfl
  | cons b blocks => cases b <;> rfl

/-! ### Writers -/

/-- A writer at work. -/
structure Writer where
  written : Layout := .empty
  /-- The number of the next list. -/
  nextList : Nat := firstList
  /-- The number of lists around what is written next. -/
  level : Nat := 0

namespace Writer

/-- Writes an item of the body. -/
def put (w : Writer) (item : LayoutItem) : Writer :=
  { w with written := w.written ++ .ofItem item }

/-- Takes the next number for a list. -/
def create (w : Writer) (ordered : Bool) : Writer :=
  { w with written := w.written ++ ⟨[], [ordered]⟩, nextList := w.nextList + 1 }

mutual

/-- Writes a block.  In a list the level is counted up, and down again at the end. -/
def block (o : Options) (w : Writer) : Block → Writer
  | .paragraph inlines => w.put (.paragraph { parts := partsAmong o {} inlines })
  | .heading level inlines =>
    w.put (.paragraph { style := some (Style.heading level), parts := partsAmong o {} inlines })
  | .list ordered items =>
    let place : ListPlace := ⟨w.nextList, min w.level deepestLevel⟩
    let inside := Writer.items o place { w.create ordered with level := w.level + 1 } items
    { inside with level := inside.level - 1 }
  | .quote blocks => Writer.styled o Style.blockquote w blocks
  | .code text _ => ((Text.splitOn '\n' text.toList).map (codeLine o)).foldl put w
  | .rule => w.put ruleItem
  | .table header rows alignments => w.put (tableItem o header rows alignments)

/-- Writes blocks whose paragraphs have a style. -/
def styled (o : Options) (style : String) (w : Writer) : List Block → Writer
  | [] => w
  | b :: rest =>
    let w := match b with
      | .paragraph inlines =>
        w.put (.paragraph { style := some style, parts := partsAmong o {} inlines })
      | b => Writer.block o w b
    Writer.styled o style w rest

/-- Writes the items of a list, each with a numbered paragraph in front. -/
def items (o : Options) (place : ListPlace) (w : Writer) : List (List Block) → Writer
  | [] => w
  | blocks :: rest =>
    let w := match blocks with
      | .paragraph inlines :: blocks =>
        Writer.styled o Style.listParagraph
          (w.put (.paragraph { place := some place, parts := partsAmong o {} inlines })) blocks
      | blocks =>
        Writer.styled o Style.listParagraph (w.put (.paragraph { place := some place })) blocks
    Writer.items o place w rest

end

/-- A writer that has written a layout, and is on the same level as before. -/
def after (w : Writer) (l : Layout) : Writer :=
  { w with written := w.written ++ l, nextList := w.nextList + l.lists.length }

variable {o : Options}

theorem after_empty (w : Writer) : w.after .empty = w := by
  rw [after, show w.written ++ Layout.empty = w.written from congrArg₂ Layout.mk
    (List.append_nil _) (List.append_nil _)]
  rfl

theorem after_after (w : Writer) (a b : Layout) : (w.after a).after b = w.after (a ++ b) := by
  simp only [after, Layout.append_assoc, Layout.lists_append, List.length_append, Nat.add_assoc]

theorem foldl_put (w : Writer) (items : List LayoutItem) :
    items.foldl put w = w.after ⟨items, []⟩ := by
  induction items generalizing w with
  | nil => exact w.after_empty.symm
  | cons item items ih =>
    have hput : w.put item = w.after (.ofItem item) := rfl
    rw [List.foldl_cons, ih, hput, after_after]
    rfl

/-- A writer writes the layout of a block, for its own next number and level. -/
def WritesLayout (o : Options) (b : Block) : Prop :=
  ∀ w, block o w b = w.after (layoutBlock o w.nextList w.level b)

theorem styled_eq {style : String} {blocks : List Block} (h : ∀ b ∈ blocks, WritesLayout o b)
    (w : Writer) :
    styled o style w blocks = w.after (layoutStyled o w.nextList w.level style blocks) := by
  induction blocks generalizing w with
  | nil => exact w.after_empty.symm
  | cons b blocks ih =>
    rw [List.forall_mem_cons] at h
    -- a paragraph takes the style, every other block is written as it is elsewhere
    have hfirst : styled o style w (b :: blocks) =
        styled o style (w.after (styledBlock o w.nextList w.level style b)) blocks := by
      cases b with
      | paragraph inlines => rfl
      | heading | list | quote | code | rule | table =>
        exact congrArg (fun w => styled o style w blocks) (h.1 w)
    rw [hfirst, ih h.2, after_after, layoutStyled_cons]
    rfl

theorem items_cons_eq (place : ListPlace) (w : Writer) (blocks : List Block)
    (items : List (List Block)) :
    Writer.items o place w (blocks :: items) =
      Writer.items o place (styled o Style.listParagraph
        (w.after (.paragraph o { place := some place } (leadingInlines blocks)))
        (followingBlocks blocks)) items := by
  cases blocks with
  | nil => rfl
  | cons b blocks => cases b <;> rfl

theorem items_eq {place : ListPlace} {items : List (List Block)}
    (h : ∀ blocks ∈ items, ∀ b ∈ blocks, WritesLayout o b) (w : Writer) :
    Writer.items o place w items = w.after (layoutItems o w.nextList w.level place items) := by
  induction items generalizing w with
  | nil => exact w.after_empty.symm
  | cons blocks items ih =>
    rw [List.forall_mem_cons] at h
    have hfollowing := fun b hb => h.1 b (followingBlocks_subset blocks hb)
    rw [items_cons_eq, styled_eq hfollowing, after_after, ih h.2, after_after, layoutItems_cons_eq]
    rfl

theorem nestedCases_writesLayout : NestedCases (WritesLayout o) where
  paragraph _ _ := rfl
  heading _ _ _ := rfl
  list ordered items ih w := by
    rw [block, items_eq ih, layoutBlock]
    -- the level of the items is one more, and so it is back at the end
    simp only [after, create, Layout.append_assoc, Nat.add_sub_cancel, List.length_cons]
    congr 1
    rw [Nat.add_right_comm, Nat.add_assoc]
  quote _ ih w := styled_eq ih w
  code _ _ w := foldl_put w _
  rule _ := rfl
  table _ _ _ _ := rfl

/-- **A writer that counts the level up and down writes the layout of a block**, and its level is
what it was before. -/
theorem block_eq (w : Writer) (b : Block) :
    block o w b = w.after (layoutBlock o w.nextList w.level b) :=
  nestedCases_writesLayout.block b w

end Writer

/-! ### The lists of a document -/

/-- A list of a document. -/
structure ListNode where
  /-- The number of lists around it. -/
  depth : Nat
  ordered : Bool
  items : List (List Block)

mutual

/-- The lists in a block, in the order in which they begin.  A table has none. -/
def listNodes (depth : Nat) : Block → List ListNode
  | .list ordered items => ⟨depth, ordered, items⟩ :: listNodesOfItems (depth + 1) items
  | .quote blocks => listNodesOfAll depth blocks
  | .paragraph _ | .heading _ _ | .code _ _ | .rule | .table _ _ _ => []

/-- The lists in blocks. -/
def listNodesOfAll (depth : Nat) : List Block → List ListNode
  | [] => []
  | b :: rest => listNodes depth b ++ listNodesOfAll depth rest

/-- The lists in the items of a list. -/
def listNodesOfItems (depth : Nat) : List (List Block) → List ListNode
  | [] => []
  | blocks :: rest => listNodesOfAll depth blocks ++ listNodesOfItems depth rest

end

theorem listNodesOfAll_following (depth : Nat) (blocks : List Block) :
    listNodesOfAll depth (followingBlocks blocks) = listNodesOfAll depth blocks := by
  cases blocks with
  | nil => rfl
  | cons b blocks => cases b <;> rfl

/-- The numbered paragraph of an item. -/
def itemParagraph (o : Options) (place : ListPlace) (blocks : List Block) : WrittenParagraph :=
  { place := some place, parts := partsAmong o {} (leadingInlines blocks) }

/-- The place of the items of a list with a number. -/
def ListNode.place (node : ListNode) (number : Nat) : ListPlace :=
  ⟨number, min node.depth deepestLevel⟩

/-- The numbered paragraphs of a list, one for each item. -/
def ListNode.paragraphs (o : Options) (node : ListNode) (number : Nat) : List WrittenParagraph :=
  node.items.map (itemParagraph o (node.place number))

/-- Of lists that are numbered from `next` on, the paragraphs of the one with a number. -/
def paragraphsWith (o : Options) (next number : Nat) (nodes : List ListNode) :
    List WrittenParagraph :=
  (nodes.zipIdx next).flatMap fun (node, i) => if i = number then node.paragraphs o number else []

section

variable (o : Options) (next number : Nat)

theorem paragraphsWith_append (as bs : List ListNode) :
    paragraphsWith o next number (as ++ bs) =
      paragraphsWith o next number as ++ paragraphsWith o (next + as.length) number bs := by
  rw [paragraphsWith, List.zipIdx_append, List.flatMap_append]
  rfl

theorem paragraphsWith_cons (node : ListNode) (nodes : List ListNode) :
    paragraphsWith o next number (node :: nodes) =
      (if next = number then node.paragraphs o number else []) ++
        paragraphsWith o (next + 1) number nodes := by
  rw [paragraphsWith, List.zipIdx_cons, List.flatMap_cons]
  rfl

variable {next number}

/-- Lists that begin later have other numbers. -/
theorem paragraphsWith_of_lt (h : number < next) (nodes : List ListNode) :
    paragraphsWith o next number nodes = [] := by
  rw [paragraphsWith, List.flatMap_eq_nil_iff]
  rintro ⟨node, i⟩ hmem
  have hi : next ≤ i := List.le_snd_of_mem_zipIdx hmem
  exact if_neg (by omega)

/-- The paragraphs with the number of a list are those of the list. -/
theorem paragraphsWith_of_getElem? {nodes : List ListNode} {i : Nat} {node : ListNode}
    (h : nodes[i]? = some node) :
    paragraphsWith o next (i + next) nodes = node.paragraphs o (i + next) := by
  induction nodes generalizing next i with
  | nil => cases h
  | cons first nodes ih =>
    rw [paragraphsWith_cons]
    cases i with
    | zero =>
      obtain rfl := Option.some_inj.mp h
      rw [Nat.zero_add, if_pos rfl, paragraphsWith_of_lt o (Nat.lt_succ_self next),
        List.append_nil]
    | succ i =>
      have hrest : paragraphsWith o (next + 1) (i + (next + 1)) nodes =
          node.paragraphs o (i + (next + 1)) := ih h
      rw [Nat.succ_add_eq_add_succ, if_neg (by omega), hrest, List.nil_append]

/-- A paragraph with a number is one of a list that has this number. -/
theorem exists_of_mem_paragraphsWith {nodes : List ListNode} {q : WrittenParagraph}
    (h : q ∈ paragraphsWith o next number nodes) :
    ∃ i node, nodes[i]? = some node ∧ number = i + next ∧ q ∈ node.paragraphs o number := by
  obtain ⟨⟨node, n⟩, hmem, hq⟩ := List.mem_flatMap.mp h
  obtain ⟨hle, hlt, hnode⟩ := List.mem_zipIdx hmem
  change q ∈ if n = number then node.paragraphs o number else [] at hq
  split at hq
  · refine ⟨n - next, node, List.getElem?_eq_some_iff.mpr ⟨by omega, hnode.symm⟩, by omega, hq⟩
  · cases hq

end

/-! ### Numbered paragraphs -/

/-- The paragraphs of an item of a body, those in cells included. -/
def LayoutItem.paragraphs : LayoutItem → List WrittenParagraph
  | .paragraph p => [p]
  | .table rows => rows.flatten.flatten

namespace Layout

/-- All paragraphs. -/
def paragraphs (l : Layout) : List WrittenParagraph :=
  l.items.flatMap LayoutItem.paragraphs

/-- The paragraphs of the list with a number. -/
def numberedWith (number : Nat) (l : Layout) : List WrittenParagraph :=
  l.paragraphs.filter fun q => q.place.any (·.list = number)

@[simp] theorem numberedWith_append (number : Nat) (a b : Layout) :
    (a ++ b).numberedWith number = a.numberedWith number ++ b.numberedWith number := by
  rw [numberedWith, paragraphs, items_append, List.flatMap_append, List.filter_append]
  rfl

end Layout

/-- A layout has lists that are numbered from `next` on, each with its paragraphs. -/
structure HasLists (o : Options) (next : Nat) (l : Layout) (nodes : List ListNode) : Prop where
  lists : l.lists = nodes.map ListNode.ordered
  numbered : ∀ number, l.numberedWith number = paragraphsWith o next number nodes

section

variable {o : Options} {next : Nat}

theorem HasLists.append {a b : Layout} {as bs : List ListNode} (h : HasLists o next a as)
    (h' : HasLists o (next + a.lists.length) b bs) : HasLists o next (a ++ b) (as ++ bs) := by
  have hlength : a.lists.length = as.length := by rw [h.lists, List.length_map]
  refine ⟨?_, fun number => ?_⟩
  · rw [Layout.lists_append, h.lists, h'.lists, List.map_append]
  · rw [Layout.numberedWith_append, h.numbered, h'.numbered, hlength, ← paragraphsWith_append]

theorem hasLists_nil {l : Layout} (hlists : l.lists = [])
    (h : ∀ q ∈ l.paragraphs, q.place = none) : HasLists o next l [] := by
  refine ⟨hlists, fun number => List.filter_eq_nil_iff.mpr fun q hq => ?_⟩
  rw [h q hq]
  exact Bool.false_ne_true

theorem hasLists_paragraph {base : WrittenParagraph} (h : base.place = none)
    (inlines : List Inline) : HasLists o next (.paragraph o base inlines) [] :=
  hasLists_nil rfl (List.forall_mem_singleton.mpr h)

theorem hasLists_code (lines : List (List Char)) :
    HasLists o next ⟨lines.map (codeLine o), []⟩ [] := by
  refine hasLists_nil rfl fun q hq => ?_
  obtain ⟨item, hitem, hq⟩ := List.mem_flatMap.mp hq
  obtain ⟨line, -, rfl⟩ := List.mem_map.mp hitem
  obtain rfl := List.mem_singleton.mp hq
  rfl

theorem cellParagraphs_place {base : WrittenParagraph} (h : base.place = none)
    (blocks : List Block) : ∀ q ∈ cellParagraphs o base blocks, q.place = none := by
  rw [cellParagraphs]
  split
  · exact List.forall_mem_singleton.mpr h
  · refine List.forall_mem_map.mpr fun b _ => ?_
    cases b <;> exact h

theorem tableRow_place (columns : Nat) (alignments : List Alignment) (isHeader : Bool)
    (cells : List (List Block)) :
    ∀ cell ∈ tableRow o columns alignments isHeader cells, ∀ q ∈ cell, q.place = none := by
  rw [tableRow, List.forall_mem_map]
  exact fun column _ => cellParagraphs_place rfl _

/-- No paragraph in a table is numbered. -/
theorem hasLists_table (header : Option (List (List Block))) (rows : List (List (List Block)))
    (alignments : Option (List Alignment)) :
    HasLists o next (.ofItem (tableItem o header rows alignments)) [] := by
  refine hasLists_nil rfl fun q hq => ?_
  obtain ⟨item, hitem, hq⟩ := List.mem_flatMap.mp hq
  obtain rfl := List.mem_singleton.mp hitem
  obtain ⟨cell, hcell, hq⟩ := List.mem_flatten.mp hq
  obtain ⟨row, hrow, hcell⟩ := List.mem_flatten.mp hcell
  rcases List.mem_append.mp hrow with hrow | hrow
  · obtain ⟨cells, -, rfl⟩ := Option.map_eq_some_iff.mp (Option.mem_toList.mp hrow)
    exact tableRow_place _ _ true cells cell hcell q hq
  · obtain ⟨cells, -, rfl⟩ := List.mem_map.mp hrow
    exact tableRow_place _ _ false cells cell hcell q hq

/-! ### Layouts of blocks -/

/-- A block has its lists in its layout, from whichever number and level it is laid out. -/
def HasOwnLists (o : Options) (b : Block) : Prop :=
  ∀ next depth, HasLists o next (layoutBlock o next depth b) (listNodes depth b)

theorem hasLists_styled {blocks : List Block} (h : ∀ b ∈ blocks, HasOwnLists o b)
    (next depth : Nat) (style : String) :
    HasLists o next (layoutStyled o next depth style blocks) (listNodesOfAll depth blocks) := by
  induction blocks generalizing next with
  | nil => exact hasLists_nil rfl (List.forall_mem_nil _)
  | cons b blocks ih =>
    rw [List.forall_mem_cons] at h
    have hfirst : HasLists o next (styledBlock o next depth style b) (listNodes depth b) := by
      cases b with
      | paragraph inlines => exact hasLists_paragraph rfl inlines
      | heading | list | quote | code | rule | table => exact h.1 next depth
    rw [layoutStyled_cons]
    exact hfirst.append (ih h.2 _)

theorem numberedWith_paragraph (number : Nat) (place : ListPlace) (blocks : List Block) :
    (Layout.paragraph o { place := some place } (leadingInlines blocks)).numberedWith number =
      if place.list = number then [itemParagraph o place blocks] else [] := by
  by_cases h : place.list = number
  · rw [if_pos h]
    exact List.filter_cons_of_pos (decide_eq_true h)
  · rw [if_neg h]
    exact List.filter_cons_of_neg (by simpa using h)

/-- An item has its numbered paragraph, and the lists in it. -/
theorem numbered_item {blocks : List Block} (h : ∀ b ∈ blocks, HasOwnLists o b)
    (next depth : Nat) (place : ListPlace) :
    let first := layoutItem o next depth place (leadingInlines blocks) (followingBlocks blocks)
    first.lists = (listNodesOfAll depth blocks).map ListNode.ordered ∧
      ∀ number, first.numberedWith number =
        (if place.list = number then [itemParagraph o place blocks] else []) ++
          paragraphsWith o next number (listNodesOfAll depth blocks) := by
  intro first
  have hfollowing : HasLists o next
      (layoutStyled o next depth Style.listParagraph (followingBlocks blocks))
      (listNodesOfAll depth blocks) := by
    rw [← listNodesOfAll_following]
    exact hasLists_styled (fun b hb => h b (followingBlocks_subset blocks hb)) next depth _
  refine ⟨hfollowing.lists, fun number => ?_⟩
  rw [← hfollowing.numbered, ← numberedWith_paragraph, ← Layout.numberedWith_append]
  rfl

/-- The items of a list, whose number is not one of those of the lists in them. -/
theorem numbered_items {items : List (List Block)}
    (h : ∀ blocks ∈ items, ∀ b ∈ blocks, HasOwnLists o b) {next : Nat} (depth : Nat)
    {place : ListPlace} (hplace : place.list < next) :
    (layoutItems o next depth place items).lists =
        (listNodesOfItems depth items).map ListNode.ordered ∧
      ∀ number, (layoutItems o next depth place items).numberedWith number =
        (if place.list = number then items.map (itemParagraph o place) else []) ++
          paragraphsWith o next number (listNodesOfItems depth items) := by
  induction items generalizing next with
  | nil =>
    refine ⟨rfl, fun number => ?_⟩
    rw [List.map_nil, ite_self]
    rfl
  | cons blocks items ih =>
    rw [List.forall_mem_cons] at h
    obtain ⟨hlists, hnumbered⟩ := numbered_item h.1 next depth place
    rw [layoutItems_cons_eq]
    set first := layoutItem o next depth place (leadingInlines blocks) (followingBlocks blocks)
    have hlength : first.lists.length = (listNodesOfAll depth blocks).length := by
      rw [hlists, List.length_map]
    -- the lists in the first item come before those in the others
    have hlater : place.list < next + first.lists.length := by omega
    obtain ⟨hlists', hnumbered'⟩ := ih h.2 hlater
    refine ⟨?_, fun number => ?_⟩
    · rw [Layout.lists_append, hlists', hlists, listNodesOfItems, List.map_append]
    · rw [Layout.numberedWith_append, hnumbered, hnumbered', listNodesOfItems,
        paragraphsWith_append, ← hlength]
      by_cases hn : place.list = number
      · -- the lists in the items come later
        rw [paragraphsWith_of_lt o (hn ▸ hplace),
          paragraphsWith_of_lt o (hn ▸ hlater)]
        simp only [if_pos hn, List.append_nil, List.map_cons, List.singleton_append]
      · simp only [if_neg hn, List.nil_append]

theorem hasOwnLists_list {ordered : Bool} {items : List (List Block)}
    (h : ∀ blocks ∈ items, ∀ b ∈ blocks, HasOwnLists o b) :
    HasOwnLists o (.list ordered items) := by
  intro next depth
  let place : ListPlace := ⟨next, min depth deepestLevel⟩
  have hplace : place.list < next + 1 := Nat.lt_succ_self next
  obtain ⟨hlists, hnumbered⟩ := numbered_items h (depth + 1) hplace
  rw [layoutBlock, listNodes]
  refine ⟨congrArg (ordered :: ·) hlists, fun number => ?_⟩
  rw [paragraphsWith_cons]
  refine (hnumbered number).trans ?_
  by_cases hn : next = number
  · rw [if_pos hn, if_pos hn, ← hn]
    rfl
  · rw [if_neg hn, if_neg hn]

theorem nestedCases_hasOwnLists : NestedCases (HasOwnLists o) where
  paragraph inlines _ _ := hasLists_paragraph rfl inlines
  heading _ inlines _ _ := hasLists_paragraph rfl inlines
  list _ _ ih := hasOwnLists_list ih
  quote _ ih next depth := hasLists_styled ih next depth _
  code _ _ _ _ := hasLists_code _
  rule _ _ := hasLists_nil rfl (List.forall_mem_singleton.mpr rfl)
  table header rows alignments _ _ := hasLists_table header rows alignments

theorem hasLists_blocks (next : Nat) (blocks : List Block) :
    HasLists o next (layoutBlocks o next blocks) (listNodesOfAll 0 blocks) := by
  induction blocks generalizing next with
  | nil => exact hasLists_nil rfl (List.forall_mem_nil _)
  | cons b blocks ih => exact (nestedCases_hasOwnLists.block b next 0).append (ih _)

end

/-! ### Documents -/

/-- The lists of a document. -/
def Document.listNodes (d : Document) : List ListNode :=
  listNodesOfAll 0 d.blocks

/-- A writer that starts with nothing writes the layout of a document. -/
theorem Writer.foldl_block (o : Options) (w : Writer) (hlevel : w.level = 0)
    (blocks : List Block) :
    blocks.foldl (Writer.block o) w = w.after (layoutBlocks o w.nextList blocks) := by
  induction blocks generalizing w with
  | nil => exact w.after_empty.symm
  | cons b blocks ih =>
    rw [List.foldl_cons, Writer.block_eq, hlevel, ih (w.after _) hlevel, after_after]
    rfl

/-- **The lists of a document have numbers of their own**, from 2 on, in the order in which they
begin.  The paragraphs with the number of a list are one for each of its items, in order, at the
level of the list.  No other paragraph is numbered, and the numbering part has the format of the
list for each number and level that occurs.  A writer that counts the level up and down writes all
this, and is on the same level after any block as before it. -/
theorem layout_numbers_lists (o : Options) (d : Document) :
    (∀ i node, (Document.listNodes d)[i]? = some node →
      (Document.layout o d).numberedWith (i + 2) =
        node.items.map (itemParagraph o ⟨i + 2, min node.depth 8⟩)) ∧
    (∃ root, Xml.parse? (Document.layout o d).numberingPartMarkup.printDocument = .ok root ∧
      ∀ q ∈ (Document.layout o d).paragraphs, ∀ place ∈ q.place,
        ∃ i node, (Document.listNodes d)[i]? = some node ∧ place = ⟨i + 2, min node.depth 8⟩ ∧
          levelFormat? root (toString place.list) (toString place.level) =
            some (if node.ordered then "decimal" else "bullet")) ∧
    (d.blocks.foldl (Writer.block o) {}).written = Document.layout o d ∧
    ∀ w b, (Writer.block o w b).level = w.level := by
  have hlists : HasLists o firstList (Document.layout o d) (Document.listNodes d) :=
    hasLists_blocks firstList d.blocks
  refine ⟨fun i node hi => ?_, ?_, ?_, fun w b => ?_⟩
  · have hparagraphs : paragraphsWith o firstList (i + firstList) (Document.listNodes d) =
        node.paragraphs o (i + firstList) := paragraphsWith_of_getElem? o hi
    rw [hlists.numbered]
    exact hparagraphs
  · obtain ⟨root, hroot, hformats⟩ := (Document.layout o d).exists_numberingNode
    refine ⟨root, Xml.parse?_printDocument (Layout.writable_numbering _) hroot.node?, ?_⟩
    intro q hq place hplace
    have hmem : q ∈ (Document.layout o d).numberedWith place.list := by
      refine List.mem_filter.mpr ⟨hq, ?_⟩
      rw [hplace]
      exact decide_eq_true rfl
    rw [hlists.numbered] at hmem
    -- a numbered paragraph is that of an item, so its number is that of a list of the document
    obtain ⟨i, node, hi, hnumber, hq⟩ := exists_of_mem_paragraphsWith o hmem
    obtain ⟨blocks, -, rfl⟩ := List.mem_map.mp hq
    have hlist : (Document.layout o d).lists[i]? = some node.ordered := by
      rw [hlists.lists, List.getElem?_map, hi]
      rfl
    have hown : place = node.place place.list := (Option.some_inj.mp hplace).symm
    have hlevel : place.level = min node.depth deepestLevel := congrArg ListPlace.level hown
    refine ⟨i, node, hi, ?_, ?_⟩
    · rw [hown, hnumber]
      rfl
    · rw [hlevel, hnumber]
      exact hformats i _ node.ordered hlist (Nat.min_le_right _ _)
  · rw [Writer.foldl_block o {} rfl]
    rfl
  · rw [Writer.block_eq]
    rfl

/-- A list in a quote in an item, an item that begins with a list, and a list in a table. -/
def layeredDocument : Document :=
  ⟨[.list true
      [[.paragraph [.text "a"], .quote [.list false [[.rule], [.paragraph [.text "b"]]]]],
        [.list true [[]]]],
    .table none [[[.list false [[.paragraph [.text "c"]]]]]] none,
    .list false [[.paragraph [.text "d"]]]]⟩

theorem layout_numbers_lists_layered :
    (Document.listNodes layeredDocument).map (fun node => (node.depth, node.ordered)) =
        [(0, true), (1, false), (1, true), (0, false)] ∧
      ((Document.layout .standard layeredDocument).numberedWith 3).map WrittenParagraph.place =
        [some ⟨3, 1⟩, some ⟨3, 1⟩] ∧
      ((Document.layout .standard layeredDocument).numberedWith 5).map WrittenParagraph.place =
        [some ⟨5, 0⟩] := by
  obtain ⟨hnumbered, -⟩ := layout_numbers_lists .standard layeredDocument
  have hquoted := hnumbered 1 ⟨1, false, [[.rule], [.paragraph [.text "b"]]]⟩ rfl
  have hlast := hnumbered 3 ⟨0, false, [[.paragraph [.text "d"]]]⟩ rfl
  refine ⟨rfl, ?_, ?_⟩
  · rw [hquoted]
    rfl
  · rw [hlast]
    rfl

end Interdoc.Docx

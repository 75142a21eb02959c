import Interdoc.Proofs.Html.Reading

/-!
# Trees whose text is kept

Text gets lost in two ways only.  Elements that hold nothing, such as `br`, have no place for it,
and a table takes from its rows the cells, and from all else nothing.  In a tree that is
`WellPlaced` there is no text in such places but blanks, and all text of the tree becomes text of
the document, in its order and once each, whatever elements stand in each other
(`writtenText_eq_visibleText`).

In a table with anything in it, what is kept are the texts in its cells.  So all text of a table is
kept if and only if every text that is not blank stands in a cell (`table_keeps_all_text_iff`); a
caption, or an unknown element around a row, is left out with all that is in it.
-/

namespace Interdoc.Html

open Interdoc (Inline Block)

/-- The visible characters of all texts in nodes, in document order. -/
def visibleText (nodes : List Node) : List Char :=
  (textsAmong nodes).flatMap fun t => Text.visible t.text

variable {r : Reading} {nodes rest children : List Node} {tag : String}

theorem visibleText_text (s : String) :
    visibleText (.text s :: rest) = Text.visible s ++ visibleText rest := by
  unfold visibleText
  rw [textsAmong, List.flatMap_append, textsOf, List.flatMap_singleton]

theorem visibleText_element (attributes : List (String × String)) :
    visibleText (.element tag attributes children :: rest) =
      visibleText children ++ visibleText rest := by
  unfold visibleText
  rw [textsAmong, List.flatMap_append, textsOf, List.flatMap_map]
  rfl

/-! ### Well placed nodes -/

/-- The elements that can stand in an element, if not all can: rows and row groups in a table and
its row groups, cells in a row, and none in an element that holds nothing. -/
def contentTags? (tag : String) : Option (List String) :=
  if tag = "table" || tag = "thead" || tag = "tbody" || tag = "tfoot" then
    some ["tr", "thead", "tbody", "tfoot"]
  else if tag = "tr" then some ["td", "th"]
  else if tag = "br" || tag = "hr" || tag = "img" then some []
  else none

/-- Whether a node is an element with one of the tags, a blank text or a comment. -/
def Node.isAmong (tags : List String) : Node → Bool
  | .text s => Text.isBlank s.toList
  | .other children => children.isEmpty
  | .element tag _ _ => tags.contains tag

mutual

/-- Whether all elements in a node hold only what can stand in them.  There are texts, elements and
comments. -/
def Node.isWellPlaced : Node → Bool
  | .text _ => true
  | .other children => children.isEmpty
  | .element tag _ children =>
    (contentTags? tag).all (fun tags => children.all (Node.isAmong tags)) &&
      areWellPlaced children

/-- Whether all elements in nodes hold only what can stand in them. -/
def areWellPlaced : List Node → Bool
  | [] => true
  | node :: rest => node.isWellPlaced && areWellPlaced rest

end

/-! ### Text in well placed nodes -/

namespace Reading

/-- The elements that are looked for, if not all are. -/
def contentTags? : Reading → Option (List String)
  | .rows => some ["tr", "thead", "tbody", "tfoot"]
  | .cells => some ["td", "th"]
  | .nothing => some []
  | .blocks | .inlines | .code => none

/-- Nodes are such as are looked for. -/
def Suits (r : Reading) (nodes : List Node) : Prop :=
  ∀ tags ∈ r.contentTags?, ∀ node ∈ nodes, node.isAmong tags = true

theorem Suits.head {node : Node} (h : r.Suits (node :: rest)) :
    ∀ tags ∈ r.contentTags?, node.isAmong tags = true :=
  fun tags htags => h tags htags node List.mem_cons_self

theorem Suits.tail {node : Node} (h : r.Suits (node :: rest)) : r.Suits rest :=
  fun tags htags other hother => h tags htags other (List.mem_cons_of_mem _ hother)

/-- Where texts are not kept, only some elements are looked for. -/
theorem exists_contentTags? (h : r.keepsText = false) : ∃ tags, r.contentTags? = some tags := by
  cases r with
  | rows | cells | nothing => exact ⟨_, rfl⟩
  | blocks | inlines | code => exact absurd h (by decide)

theorem contentTags?_insideInline {tags : List String}
    (h : (insideInline tag).contentTags? = some tags) : Html.contentTags? tag = some tags := by
  unfold insideInline at h
  simp only [Bool.or_eq_true, decide_eq_true_eq] at h
  split at h
  · cases h
  · split at h
    · next hvoid =>
      obtain rfl : [] = tags := Option.some.inj h
      rcases hvoid with rfl | rfl <;> decide
    · cases h

theorem contentTags?_insideBlock {tags : List String}
    (h : (insideBlock tag).contentTags? = some tags) : Html.contentTags? tag = some tags := by
  unfold insideBlock at h
  split at h
  · cases h
  split at h
  · cases h
  split at h
  · next htag => rw [htag, ← h]; decide
  split at h
  · next htag => rw [htag, ← h]; decide
  · cases h

/-- **Only elements that cannot hold all others** are looked at for some elements only. -/
theorem contentTags?_inside {tags : List String} (hr : ∀ allowed ∈ r.contentTags?, tag ∈ allowed)
    (h : (r.inside (some tag)).contentTags? = some tags) : Html.contentTags? tag = some tags := by
  -- rows and cells are looked for in parts of tables only, so their tags are few
  cases r with
  | blocks =>
    rw [inside] at h
    split at h
    · exact contentTags?_insideBlock h
    · exact contentTags?_insideInline h
  | inlines => exact contentTags?_insideInline h
  | code =>
    rw [inside] at h
    split at h
    · next htag => rw [htag, ← h]; decide
    · cases h
  | rows =>
    have htag := hr _ rfl
    simp only [List.mem_cons, List.not_mem_nil, or_false] at htag
    rw [← h]
    rcases htag with rfl | rfl | rfl | rfl <;> decide
  | cells =>
    have htag := hr _ rfl
    simp only [List.mem_cons, List.not_mem_nil, or_false] at htag
    rcases htag with rfl | rfl <;> cases h
  | nothing =>
    have htag := hr _ rfl
    cases htag

end Reading

/-- **Of well placed nodes** everything is kept, if they are such as are looked for. -/
theorem kept_eq_visibleText {nodes : List Node} (h : areWellPlaced nodes = true)
    (hr : r.Suits nodes) : kept r nodes = visibleText nodes := by
  induction nodes using forest_induction generalizing r with
  | nil => rfl
  | text s rest ih =>
    rw [areWellPlaced, Bool.and_eq_true] at h
    -- a text that is dropped is blank
    have hs : (if r.keepsText then Text.visible s else []) = Text.visible s := by
      cases hkeeps : r.keepsText with
      | true => rfl
      | false =>
        obtain ⟨tags, htags⟩ := Reading.exists_contentTags? hkeeps
        exact (Text.visible_of_isBlank (hr.head tags htags)).symm
    rw [kept_text, hs, ih h.2 hr.tail, visibleText_text]
  | other children rest _ ih =>
    rw [areWellPlaced, Bool.and_eq_true, Node.isWellPlaced, List.isEmpty_iff] at h
    obtain ⟨rfl, hrest⟩ := h
    rw [kept_other, kept_nil, List.nil_append, ih hrest hr.tail]
    rfl
  | element tag attributes children rest ihChildren ih =>
    rw [areWellPlaced, Bool.and_eq_true, Node.isWellPlaced, Bool.and_eq_true] at h
    obtain ⟨⟨hcontent, hchildren⟩, hrest⟩ := h
    -- what is in the element is what is looked for in it
    have hsuits : (r.inside (some tag)).Suits children := by
      intro tags htags
      have htag : ∀ allowed ∈ r.contentTags?, tag ∈ allowed := by
        intro allowed hallowed
        simpa [Node.isAmong] using hr.head allowed hallowed
      rw [Reading.contentTags?_inside htag htags] at hcontent
      simpa using hcontent
    rw [kept_element, ihChildren hchildren hsuits, ih hrest hr.tail, visibleText_element]

/-- **No text of well placed nodes is lost, doubled or moved**: the strings of the blocks that they
make have the visible characters of the texts in the nodes, in document order.  The elements may be
known or not and stand in each other in any way. -/
theorem writtenText_eq_visibleText {nodes : List Node} (h : areWellPlaced nodes = true) :
    Block.writtenText (blocksOf nodes) = visibleText nodes := by
  have hsuits : Reading.blocks.Suits nodes := fun tags htags => by cases htags
  rw [writtenText_blocksOf, kept_eq_visibleText h hsuits]

/-- Blocks in inlines, a table in a heading, texts beside items, an item without a list, unknown
elements and a table with two row groups. -/
def tangledNodes : List Node :=
  [.text "a ", .element "b" [] [.element "p" [] [.text "b"], .element "hr" [] [], .text "c"],
    .element "ul" [] [.text "d", .element "li" [] [.element "h2" []
      [.element "table" [] [.element "tr" [] [.element "td" [] [.text "e"]]]]], .text " "],
    .element "li" [] [.element "mark" [] [.element "code" [] [.text "f", .element "br" [] []]]],
    .element "table" [] [.text "\n",
      .element "thead" [] [.element "tr" [] [.element "th" [] [.element "div" [] [.text "g"]]]],
      .element "tbody" [] [.element "tr" [] [.element "td" [] [.element "pre" [] [.text "h\n"]],
        .element "td" [] [.element "img" [("alt", "x")] []]]]],
    .other [], .text "i"]

theorem writtenText_eq_visibleText_tangledNodes :
    areWellPlaced tangledNodes = true ∧
      Block.writtenText (blocksOf tangledNodes) = visibleText tangledNodes ∧
      visibleText tangledNodes = "abcdefghi".toList := by
  have hplaced : areWellPlaced tangledNodes = true := by decide +kernel
  exact ⟨hplaced, writtenText_eq_visibleText hplaced, by decide +kernel⟩

/-! ### Text in tables -/

/-- A path from a table leads into a cell: by way of row groups to a row, then to a cell, and in the
cell to a place where texts are kept. -/
def InCell (path : List (Option String)) : Prop :=
  ∃ groups cell inner, path = groups ++ some "tr" :: some cell :: inner ∧
    (∀ group ∈ groups, group ∈ [some "thead", some "tbody", some "tfoot"]) ∧
    (cell = "td" ∨ cell = "th") ∧ (Reading.blocks.along inner).keepsText = true

theorem InCell.cons {path : List (Option String)} (h : InCell path)
    (htag : tag = "thead" ∨ tag = "tbody" ∨ tag = "tfoot") : InCell (some tag :: path) := by
  obtain ⟨groups, cell, inner, rfl, hgroups, hcell, hinner⟩ := h
  refine ⟨some tag :: groups, cell, inner, rfl, ?_, hcell, hinner⟩
  rw [List.forall_mem_cons]
  exact ⟨by simpa using htag, hgroups⟩

theorem along_cells_keepsText {path : List (Option String)}
    (h : (Reading.cells.along path).keepsText = true) :
    ∃ cell inner, path = some cell :: inner ∧ (cell = "td" ∨ cell = "th") ∧
      (Reading.blocks.along inner).keepsText = true := by
  match path with
  | [] => exact absurd h (by decide)
  | none :: path =>
    change (Reading.nothing.along path).keepsText = true at h
    rw [Reading.along_nothing] at h
    cases h
  | some cell :: path =>
    rw [Reading.along, List.foldl_cons, Reading.inside] at h
    simp only [Bool.or_eq_true, decide_eq_true_eq] at h
    split at h
    · next hcell => exact ⟨cell, path, rfl, hcell, h⟩
    · change (Reading.nothing.along path).keepsText = true at h
      rw [Reading.along_nothing] at h
      cases h

/-- **The texts of a table that are kept** are those in its cells. -/
theorem along_rows_keepsText_iff {path : List (Option String)} :
    (Reading.rows.along path).keepsText = true ↔ InCell path := by
  constructor
  · intro h
    induction path with
    | nil => exact absurd h (by decide)
    | cons outer path ih =>
      rw [Reading.along, List.foldl_cons] at h
      cases outer with
      | none =>
        change (Reading.nothing.along path).keepsText = true at h
        rw [Reading.along_nothing] at h
        cases h
      | some tag =>
        rw [Reading.inside] at h
        simp only [Bool.or_eq_true, decide_eq_true_eq] at h
        split at h
        · next htag =>
          obtain ⟨cell, inner, rfl, hcell, hinner⟩ := along_cells_keepsText h
          exact ⟨[], cell, inner, by rw [htag]; rfl, List.forall_mem_nil _, hcell, hinner⟩
        · split at h
          · next htag => exact (ih h).cons (by simpa [or_assoc] using htag)
          · change (Reading.nothing.along path).keepsText = true at h
            rw [Reading.along_nothing] at h
            cases h
  · rintro ⟨groups, cell, inner, rfl, hgroups, hcell, hinner⟩
    -- row groups leave the rows to be looked for
    have hrows : Reading.rows.along groups = .rows := by
      induction groups with
      | nil => rfl
      | cons group groups ih =>
        rw [List.forall_mem_cons] at hgroups
        have hgroup : Reading.rows.inside group = .rows := by
          have hmem := hgroups.1
          simp only [List.mem_cons, List.not_mem_nil, or_false] at hmem
          rcases hmem with rfl | rfl | rfl <;> decide
        rw [Reading.along, List.foldl_cons, hgroup]
        exact ih hgroups.2
    have hcells : Reading.cells.inside (some cell) = .blocks := by
      rcases hcell with rfl | rfl <;> decide
    have hpath : Reading.rows.along (groups ++ some "tr" :: some cell :: inner) =
        (Reading.cells.inside (some cell)).along inner := by
      unfold Reading.along at hrows ⊢
      rw [List.foldl_append, hrows]
      rfl
    rw [hpath, hcells]
    exact hinner

/-- **Of a table the texts in its cells are kept**, in document order, whatever is in it and around
it.  All text of the table is kept if and only if every text that is not blank stands in a cell. -/
theorem table_keeps_all_text_iff (before after : List Node) (attributes : List (String × String))
    (children : List Node) :
    Block.writtenText (blocksOf (before ++ .element "table" attributes children :: after)) =
        Block.writtenText (blocksOf before) ++ kept .rows children ++
          Block.writtenText (blocksOf after) ∧
      (kept .rows children).Sublist (visibleText children) ∧
      (kept .rows children = visibleText children ↔
        ∀ t ∈ textsAmong children, Text.isBlank t.text.toList = false → InCell t.path) := by
  -- nothing is kept that is not visible, so it is enough to compare text by text
  have hparts : ∀ t ∈ textsAmong children,
      (if (Reading.rows.along t.path).keepsText then Text.visible t.text else []).Sublist
        (Text.visible t.text) := by
    intro t _
    split
    · exact .refl _
    · exact List.nil_sublist _
  refine ⟨?_, List.Sublist.flatMap_right _ hparts, ?_⟩
  · have hinside : Reading.blocks.inside (some "table") = .rows := by decide
    rw [writtenText_blocksOf, writtenText_blocksOf, writtenText_blocksOf, kept_append, kept_element,
      hinside, List.append_assoc]
  · unfold kept visibleText
    rw [Text.flatMap_eq_flatMap_iff_of_sublist hparts]
    refine forall₂_congr fun t _ => ?_
    rw [← along_rows_keepsText_iff]
    cases hkeeps : (Reading.rows.along t.path).keepsText with
    | true => simp
    | false =>
      have hblank : [] = Text.visible t.text ↔ Text.isBlank t.text.toList = true := by
        rw [eq_comm, Text.visible, List.filter_eq_nil_iff, Text.isBlank_iff]
        simp
      simp [hblank]

/-- A table with a caption, and with an unknown element around a row. -/
def captionedTable : Node :=
  .element "table" [] [.element "caption" [] [.text "a"],
    .element "tbody" [] [.element "tr" [] [.element "td" [] [.text "b"]]],
    .element "x-rows" [] [.element "tr" [] [.element "td" [] [.text "c"]]]]

/-- **The caption and the row are left out**, although they hold text. -/
theorem blocksOf_captionedTable :
    blocksOf [captionedTable] = [.table none [[[.paragraph [.text "b"]]]] none] ∧
      visibleText [captionedTable] = "abc".toList := by
  have hrow : rowsAmong [.element "tr" [] [.element "td" [] [.text "b"]]] =
      [⟨false, [([.paragraph [.text "b"]], none)]⟩] := by
    have hcell : blocksFrom [] [.text "b"] = [.paragraph [.text "b"]] := by
      rw [blocksFrom, blocksFrom]
      rfl
    simp only [rowsAmong, cellsAmong, hcell]
    rfl
  have htable (children : List Node) :
      blockOf "table" children = [tableOf (rowsAmong children)] := by
    rw [blockOf]
    rfl
  have hempty : gathered [] = [] := rfl
  constructor
  · simp [captionedTable, blocksOf, blocksFrom, htable, rowsAmong, hrow, hempty, blockTags]
    rfl
  · decide +kernel

end Interdoc.Html

import Interdoc.Html.Blocks
import Interdoc.Proofs.Document.Strings

/-!
# What is read of a tree

Whether a text in a tree becomes text of the document is decided by the tags of the elements around
it.  On the way down to it the tree is looked at in one of a few ways, a `Reading`: as blocks, as
inlines, as code, as the rows of a table, as the cells of a row, or not at all.  The tag of an
element says how its children are looked at (`Reading.inside`), and a text is kept where the tree is
looked at as blocks, inlines or code.

The blocks that nodes make hold exactly the texts that are kept, in document order
(`writtenText_blocksOf`).  The functions that read a tree call each other on the children of an
element and on the nodes behind it, so all of them are followed in one induction over the nodes:
`Conserves` has one equation for each.
-/

namespace Interdoc.Html

open Interdoc (Inline Block Alignment)

/-! ### Texts in a tree -/

/-- A text in a tree, and the nodes around it, the outermost first: their tags, or `none` for a node
that is no element. -/
structure PlacedText where
  path : List (Option String)
  text : String

/-- A text in the children of a node, as a text in the node. -/
def PlacedText.within (outer : Option String) (t : PlacedText) : PlacedText :=
  { t with path := outer :: t.path }

mutual

/-- The texts in a node. -/
def textsOf : Node → List PlacedText
  | .text s => [⟨[], s⟩]
  | .element tag _ children => (textsAmong children).map (PlacedText.within (some tag))
  | .other children => (textsAmong children).map (PlacedText.within none)

/-- The texts in nodes, in document order. -/
def textsAmong : List Node → List PlacedText
  | [] => []
  | node :: rest => textsOf node ++ textsAmong rest

end

/-- **Induction over nodes** and all that is in them. -/
theorem forest_induction {P : List Node → Prop} (nil : P [])
    (text : ∀ s rest, P rest → P (.text s :: rest))
    (other : ∀ children rest, P children → P rest → P (.other children :: rest))
    (element : ∀ tag attributes children rest, P children → P rest →
      P (.element tag attributes children :: rest)) : ∀ nodes : List Node, P nodes
  | [] => nil
  | .text s :: rest => text s rest (forest_induction nil text other element rest)
  | .other children :: rest =>
    other children rest (forest_induction nil text other element children)
      (forest_induction nil text other element rest)
  | .element tag attributes children :: rest =>
    element tag attributes children rest (forest_induction nil text other element children)
      (forest_induction nil text other element rest)

/-! ### Ways to look at nodes -/

/-- How nodes are looked at. -/
inductive Reading where
  | blocks
  | inlines
  | code
  | rows
  | cells
  | nothing
  deriving DecidableEq, Repr

namespace Reading

/-- Whether the texts among nodes that are looked at this way are kept. -/
def keepsText : Reading → Bool
  | .blocks | .inlines | .code => true
  | .rows | .cells | .nothing => false

/-- How the children of an inline element are looked at. -/
def insideInline (tag : String) : Reading :=
  if tag = "code" || tag = "tt" || tag = "kbd" then .code
  else if tag = "br" || tag = "img" then .nothing
  else .inlines

/-- How the children of a block element are looked at. -/
def insideBlock (tag : String) : Reading :=
  if tag = "p" || (headingLevel? tag).isSome then .inlines
  else if tag = "pre" then .code
  else if tag = "hr" then .nothing
  else if tag = "table" then .rows
  else .blocks

/-- How the children of a node are looked at, if the node itself is looked at in some way. -/
def inside : Reading → Option String → Reading
  | .blocks, some tag => if blockTags.contains tag then insideBlock tag else insideInline tag
  | .inlines, some tag => insideInline tag
  | .code, some tag => if tag = "br" then .nothing else .code
  | .code, none => .code
  | .rows, some tag =>
    if tag = "tr" then .cells
    else if tag = "thead" || tag = "tbody" || tag = "tfoot" then .rows
    else .nothing
  | .cells, some tag => if tag = "td" || tag = "th" then .blocks else .nothing
  | .nothing, some _ => .nothing
  | _, none => .nothing

/-- How nodes at the end of a path are looked at. -/
def along (r : Reading) (path : List (Option String)) : Reading :=
  path.foldl inside r

theorem inside_nothing (outer : Option String) : inside .nothing outer = .nothing := by
  cases outer <;> rfl

theorem along_nothing (path : List (Option String)) : along .nothing path = .nothing := by
  induction path with
  | nil => rfl
  | cons outer path ih =>
    unfold along
    rw [List.foldl_cons, inside_nothing]
    exact ih

theorem insideInline_of_not {tag : String} (hcode : ¬ (tag = "code" ∨ tag = "tt" ∨ tag = "kbd"))
    (hvoid : ¬ (tag = "br" ∨ tag = "img")) : insideInline tag = .inlines := by
  simp only [not_or] at hcode hvoid
  simp [insideInline, hcode, hvoid]

end Reading

/-! ### Texts that are kept -/

/-- The visible characters of the texts that are kept of nodes, if these are looked at in some
way. -/
def kept (r : Reading) (nodes : List Node) : List Char :=
  (textsAmong nodes).flatMap fun t => if (r.along t.path).keepsText then Text.visible t.text else []

variable {r : Reading} {nodes rest children : List Node} {tag : String}
  {attributes : List (String × String)}

theorem kept_nil : kept r [] = [] := rfl

theorem kept_text (s : String) :
    kept r (.text s :: rest) = (if r.keepsText then Text.visible s else []) ++ kept r rest := by
  unfold kept
  rw [textsAmong, List.flatMap_append, textsOf, List.flatMap_singleton]
  rfl

theorem kept_element :
    kept r (.element tag attributes children :: rest) =
      kept (r.inside (some tag)) children ++ kept r rest := by
  unfold kept
  rw [textsAmong, List.flatMap_append, textsOf, List.flatMap_map]
  rfl

theorem kept_other :
    kept r (.other children :: rest) = kept (r.inside none) children ++ kept r rest := by
  unfold kept
  rw [textsAmong, List.flatMap_append, textsOf, List.flatMap_map]
  rfl

theorem kept_append (ms ns : List Node) : kept r (ms ++ ns) = kept r ms ++ kept r ns := by
  have htexts : textsAmong (ms ++ ns) = textsAmong ms ++ textsAmong ns := by
    induction ms with
    | nil => rfl
    | cons node ms ih => rw [List.cons_append, textsAmong, ih, textsAmong, List.append_assoc]
  unfold kept
  rw [htexts, List.flatMap_append]

@[simp]
theorem kept_nothing (nodes : List Node) : kept .nothing nodes = [] := by
  unfold kept
  simp [Reading.along_nothing, Reading.keepsText]

/-! ### The parts of a document -/

/-- The visible characters of the cells in a row. -/
def Row.writtenText (row : Row) : List Char :=
  row.cells.flatMap fun cell => Block.writtenText cell.1

/-- What is gathered shows what is visible of it, also if it is dropped for being blank. -/
@[simp]
theorem writtenText_gathered (pending : List Inline) :
    Block.writtenText (gathered pending) = Inline.writtenText pending := by
  unfold gathered
  split
  · next hblank =>
    have hnone : Inline.writtenText pending = [] := by
      induction pending with
      | nil => rfl
      | cons i pending ih =>
        rw [List.all_cons, Bool.and_eq_true] at hblank
        rw [Inline.writtenText_cons, ih hblank.2, List.append_nil]
        cases i with
        | text s =>
          rw [Inline.strings, List.flatMap_singleton]
          exact Text.visible_of_isBlank hblank.1
        | _ => exact absurd hblank.1 Bool.false_ne_true
    rw [hnone, Block.writtenText_nil]
  · rw [Block.writtenText_paragraph]

@[simp]
theorem flatMap_gatheredItem (blocks : List Block) :
    (gatheredItem blocks).flatMap Block.writtenText = Block.writtenText blocks := by
  unfold gatheredItem
  cases blocks with
  | nil => rfl
  | cons b blocks => exact List.flatMap_singleton ..

/-- The line feed at the end of code is not visible. -/
@[simp]
theorem visible_chompLine (s : String) : Text.visible (chompLine s) = Text.visible s := by
  unfold chompLine
  split
  · next rest hrest =>
    have hs : s = String.ofList rest ++ "\n" := by
      rw [Text.stripSuffix?_eq_some_iff] at hrest
      rw [← String.toList_inj, hrest, String.toList_append, String.toList_ofList]
      rfl
    rw [hs, Text.visible_append, Text.visible_of_isBlank (s := "\n") (by decide), List.append_nil]
  · rfl

/-- The header of a table is its first row, so the rows come in their order. -/
@[simp]
theorem writtenText_tableOf (rows : List Row) :
    Block.writtenText [tableOf rows] = rows.flatMap Row.writtenText := by
  have hrows (rows : List Row) : (rows.map fun r => r.cells.map (·.1)).flatMap
      (fun cells => cells.flatMap Block.writtenText) = rows.flatMap Row.writtenText := by
    rw [List.flatMap_map]
    refine List.flatMap_congr fun row _ => ?_
    rw [List.flatMap_map]
    rfl
  unfold tableOf
  cases rows with
  | nil => rfl
  | cons first rest =>
    obtain ⟨isHeader, cells⟩ := first
    cases isHeader with
    | false => rw [Block.writtenText_table, Option.toList_none, List.nil_append, hrows]
    | true =>
      rw [Block.writtenText_table, Option.toList_some, List.singleton_append, List.flatMap_cons,
        hrows, List.flatMap_cons, List.flatMap_map]
      rfl

/-! ### What each function keeps -/

/-- All functions that read nodes keep the texts that they are to keep, behind what has been
gathered before. -/
structure Conserves (nodes : List Node) : Prop where
  inlines : Inline.writtenText (inlinesAmong nodes) = kept .inlines nodes
  code : Text.visible (Node.textContentAmong nodes) = kept .code nodes
  blocks (pending : List Inline) :
    Block.writtenText (blocksFrom pending nodes) =
      Inline.writtenText pending ++ kept .blocks nodes
  items (blocks : List Block) (pending : List Inline) :
    (itemsFrom blocks pending nodes).flatMap Block.writtenText =
      Block.writtenText blocks ++ Inline.writtenText pending ++ kept .blocks nodes
  rows : (rowsAmong nodes).flatMap Row.writtenText = kept .rows nodes
  cells : (cellsAmong nodes).flatMap (fun cell => Block.writtenText cell.1) = kept .cells nodes

/-- **An inline element** keeps what is kept of its children. -/
theorem Conserves.inlinesOf (h : Conserves children) (tag : String)
    (attributes : List (String × String)) :
    Inline.writtenText (inlinesOf (.element tag attributes children)) =
      kept (.insideInline tag) children := by
  rw [Html.inlinesOf]
  simp only [Bool.or_eq_true, Bool.and_eq_true, decide_eq_true_eq]
  split
  · next htag =>
    have hinside : Reading.insideInline tag = .inlines := by rcases htag with rfl | rfl <;> decide
    rw [hinside, Inline.writtenText_strong, h.inlines]
  split
  · next htag =>
    have hinside : Reading.insideInline tag = .inlines := by rcases htag with rfl | rfl <;> decide
    rw [hinside, Inline.writtenText_emphasis, h.inlines]
  split
  · next htag =>
    have hinside : Reading.insideInline tag = .inlines := by rw [htag]; decide
    rw [hinside, Inline.writtenText_underline, h.inlines]
  split
  · next htag =>
    have hinside : Reading.insideInline tag = .inlines := by rw [htag.1]; decide
    rw [hinside, Inline.writtenText_underline, h.inlines]
  split
  · next htag =>
    have hinside : Reading.insideInline tag = .code := by
      rcases htag with (rfl | rfl) | rfl <;> decide
    rw [hinside, Inline.writtenText_code, h.code]
  split
  · next htag =>
    have hinside : Reading.insideInline tag = .nothing := by rw [htag]; decide
    rw [hinside, Inline.writtenText_lineBreak, kept_nothing]
  split
  · next htag =>
    have hinside : Reading.insideInline tag = .inlines := by rw [htag]; decide
    rw [hinside, Inline.writtenText_link, h.inlines]
  split
  · next htag =>
    have hinside : Reading.insideInline tag = .nothing := by rw [htag]; decide
    rw [hinside, Inline.writtenText_image, kept_nothing]
  · next hcode hbr _ himg =>
    -- any other element is replaced by its children
    rw [Reading.insideInline_of_not (by simpa [or_assoc] using hcode) (by simp [hbr, himg]),
      h.inlines]

/-- **A block element** keeps what is kept of its children. -/
theorem Conserves.blockOf (h : Conserves children) (tag : String) :
    Block.writtenText (blockOf tag children) = kept (.insideBlock tag) children := by
  rw [Html.blockOf]
  simp only [Bool.or_eq_true, decide_eq_true_eq]
  -- the tags in the order in which they are looked for
  split
  · next htag =>
    have hinside : Reading.insideBlock tag = .inlines := by rw [htag]; decide
    rw [hinside, Block.writtenText_paragraph, h.inlines]
  split
  · next level hlevel =>
    have hinside : Reading.insideBlock tag = .inlines := by simp [Reading.insideBlock, hlevel]
    rw [hinside, Block.writtenText_heading, h.inlines]
  split
  · next htag =>
    have hinside : Reading.insideBlock tag = .blocks := by rcases htag with rfl | rfl <;> decide
    rw [hinside, Block.writtenText_list, h.items]
    simp
  split
  · next htag =>
    have hinside : Reading.insideBlock tag = .blocks := by rw [htag]; decide
    rw [hinside, Block.writtenText_quote, h.blocks]
    simp
  split
  · next htag =>
    have hinside : Reading.insideBlock tag = .code := by rw [htag]; decide
    rw [hinside, codeBlock, Block.writtenText_code, visible_chompLine, h.code]
  split
  · next htag =>
    have hinside : Reading.insideBlock tag = .nothing := by rw [htag]; decide
    rw [hinside, Block.writtenText_rule, kept_nothing]
  split
  · next htag =>
    have hinside : Reading.insideBlock tag = .rows := by rw [htag]; decide
    rw [hinside, writtenText_tableOf, h.rows]
  · next hp _ hlevel _ _ hpre hhr htable =>
    have hinside : Reading.insideBlock tag = .blocks := by
      simp [Reading.insideBlock, hp, hlevel, hpre, hhr, htable]
    rw [hinside, h.blocks]
    simp

/-! ### The induction -/

theorem conserves_nil : Conserves [] where
  inlines := rfl
  code := rfl
  blocks pending := by
    rw [blocksFrom, writtenText_gathered, kept_nil, List.append_nil]
  items blocks pending := by
    rw [itemsFrom, flatMap_gatheredItem, Block.writtenText_append, writtenText_gathered, kept_nil,
      List.append_nil]
  rows := by rw [rowsAmong]; rfl
  cells := by rw [cellsAmong]; rfl

theorem conserves_text (s : String) (h : Conserves rest) : Conserves (.text s :: rest) where
  inlines := by
    rw [inlinesAmong, inlinesOf, Inline.writtenText_append, h.inlines, kept_text]
    simp [Reading.keepsText]
  code := by
    rw [Node.textContentAmong, Node.textContent, Text.visible_append, h.code, kept_text]
    rfl
  blocks pending := by
    rw [blocksFrom, h.blocks, kept_text]
    simp [Reading.keepsText]
  items blocks pending := by
    rw [itemsFrom, h.items, kept_text]
    simp [Reading.keepsText]
  rows := by
    rw [rowsAmong, h.rows, kept_text]
    rfl
  cells := by
    rw [cellsAmong, h.cells, kept_text]
    rfl

theorem conserves_other (hchildren : Conserves children) (h : Conserves rest) :
    Conserves (.other children :: rest) where
  inlines := by
    rw [inlinesAmong, inlinesOf, List.nil_append, h.inlines, kept_other]
    simp [Reading.inside]
  code := by
    rw [Node.textContentAmong, Node.textContent, Text.visible_append, hchildren.code, h.code,
      kept_other]
    rfl
  blocks pending := by
    rw [blocksFrom, h.blocks, kept_other]
    simp [Reading.inside]
  items blocks pending := by
    rw [itemsFrom, h.items, kept_other]
    simp [Reading.inside]
  rows := by
    rw [rowsAmong, h.rows, kept_other]
    simp [Reading.inside]
  cells := by
    rw [cellsAmong, h.cells, kept_other]
    simp [Reading.inside]

theorem conserves_element (tag : String) (attributes : List (String × String))
    (hchildren : Conserves children) (h : Conserves rest) :
    Conserves (.element tag attributes children :: rest) where
  inlines := by
    rw [inlinesAmong, Inline.writtenText_append, hchildren.inlinesOf, h.inlines, kept_element]
    rfl
  code := by
    rw [Node.textContentAmong, Node.textContent, Text.visible_append, h.code, kept_element,
      Reading.inside]
    split
    · rw [kept_nothing, Text.visible_of_isBlank (s := "\n") (by decide)]
    · rw [hchildren.code]
  blocks pending := by
    rw [blocksFrom, kept_element, Reading.inside]
    split
    · rw [Block.writtenText_append, Block.writtenText_append, writtenText_gathered,
        hchildren.blockOf, h.blocks, Inline.writtenText_nil, List.nil_append, List.append_assoc]
    · rw [h.blocks, Inline.writtenText_append, hchildren.inlinesOf, List.append_assoc]
  items blocks pending := by
    rw [itemsFrom, kept_element, Reading.inside]
    split
    · next htag =>
      -- an item is looked at like any other block element without a meaning of its own
      have hblock : blockTags.contains tag = true := by rw [htag]; decide
      have hinside : Reading.insideBlock tag = .blocks := by rw [htag]; decide
      rw [if_pos hblock, hinside, List.flatMap_append, List.flatMap_cons, h.items,
        hchildren.blocks]
      simp
    · split
      · rw [h.items, Block.writtenText_append, Block.writtenText_append, writtenText_gathered,
          hchildren.blockOf]
        simp
      · rw [h.items, Inline.writtenText_append, hchildren.inlinesOf]
        simp
  rows := by
    rw [rowsAmong, kept_element, Reading.inside]
    simp only [Bool.or_eq_true, decide_eq_true_eq]
    split
    · rw [List.flatMap_cons, Row.writtenText, hchildren.cells, h.rows]
    · split
      · rw [List.flatMap_append, hchildren.rows, h.rows]
      · rw [h.rows, kept_nothing, List.nil_append]
  cells := by
    rw [cellsAmong, kept_element, Reading.inside]
    split
    · rw [List.flatMap_cons, hchildren.blocks, h.cells, Inline.writtenText_nil, List.nil_append]
    · rw [h.cells, kept_nothing, List.nil_append]

theorem conserves (nodes : List Node) : Conserves nodes := by
  induction nodes using forest_induction with
  | nil => exact conserves_nil
  | text s rest ih => exact conserves_text s ih
  | other children rest ihChildren ih => exact conserves_other ihChildren ih
  | element tag attributes children rest ihChildren ih =>
    exact conserves_element tag attributes ihChildren ih

/-- **The blocks that nodes make** hold the texts that are kept of the nodes, in document order. -/
theorem writtenText_blocksOf (nodes : List Node) :
    Block.writtenText (blocksOf nodes) = kept .blocks nodes := by
  rw [blocksOf, (conserves nodes).blocks, Inline.writtenText_nil, List.nil_append]

end Interdoc.Html

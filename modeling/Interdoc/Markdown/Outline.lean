import Interdoc.Document.Basic
import Interdoc.Markdown.LinkSource
import Interdoc.Markdown.Opening

/-!
# Open blocks

An `Outline` is what a text has been found to be after some of its lines: the blocks that are still
open, with the finished blocks inside them, and the definitions found so far.  Quotes and lists are
open inside one another, and at the innermost place perhaps a `Leaf`, which gathers lines of text.

The text of a paragraph, a heading or a cell is kept as it is until all lines are read, since a
definition may follow the link that uses it.  `RawNode` is a block with such text.
-/

namespace Interdoc.Markdown

open LinkSource (Definition)

/-- A block whose text has not been read for spans. -/
inductive RawNode where
  | paragraph (text : List Char)
  | heading (level : Nat) (text : List Char)
  | list (ordered : Bool) (items : List (List RawNode))
  | quote (nodes : List RawNode)
  | code (info literal : List Char)
  | rule
  | table (alignments : List (Option Alignment)) (rows : List (List (List Char)))
  | html (literal : List Char)
  deriving Repr, Inhabited

/-! ### Open blocks -/

/-- An open item of a list. -/
structure OpenItem where
  /-- The columns by which its content is indented. -/
  width : Nat
  /-- The blocks in it, the last one first. -/
  nodes : List RawNode
  deriving Repr

/-- An open block that holds blocks.  The blocks and items in it come with the last one first. -/
inductive Frame where
  /-- The whole text. -/
  | root (nodes : List RawNode)
  | quote (nodes : List RawNode)
  /-- A list, whose last item may be open. -/
  | list (bullet : Bullet) (items : List (List RawNode)) (item : Option OpenItem)
  deriving Repr

/-- An open block that holds lines. -/
inductive Leaf where
  /-- A paragraph.  It is no table if one of its lines has been taken for the second row of a table
  without success. -/
  | paragraph (text : List Char) (isNoTable : Bool)
  | indentedCode (literal : List Char)
  /-- Fenced code, whose lines lose as many blanks as stand before the fence. -/
  | fencedCode (fence : Fence) (blanks : Nat) (info literal : List Char)
  | html (kind : HtmlKind) (literal : List Char)
  /-- A table, its rows with the last one first. -/
  | table (alignments : List (Option Alignment)) (rows : List (List (List Char)))
  deriving Repr

/-- The blocks that are open, the innermost one first, and the definitions found. -/
structure Outline where
  frames : List Frame
  leaf : Option Leaf
  definitions : List Definition

/-! ### Ends of blocks -/

/-- A frame with one more block in it.  A list without an open item takes it as an item. -/
def Frame.add (n : RawNode) : Frame → Frame
  | .root nodes => .root (n :: nodes)
  | .quote nodes => .quote (n :: nodes)
  | .list bullet items (some item) =>
    .list bullet items (some { item with nodes := n :: item.nodes })
  | .list bullet items none => .list bullet ([n] :: items) none

/-- A list frame whose last item is not open; other frames as they are. -/
def Frame.closeItem : Frame → Frame
  | .list bullet items (some item) => .list bullet (item.nodes.reverse :: items) none
  | f => f

/-- The blocks that a frame adds to the one around it when it ends. -/
def Frame.toNodes : Frame → List RawNode
  | .root nodes => nodes.reverse
  | .quote nodes => [.quote nodes.reverse]
  | .list bullet items none => [.list bullet.ordered items.reverse]
  | .list bullet items (some item) =>
    [.list bullet.ordered (item.nodes.reverse :: items).reverse]

/-- The frames after a number of the innermost ones have ended.  The outermost one stays. -/
def closeFrames : (count : Nat) → List Frame → List Frame
  | count + 1, f :: g :: frames =>
    closeFrames count (f.toNodes.foldl (fun g n => g.add n) g :: frames)
  | _, frames => frames

/-- Literal lines without blank ones at their end. -/
def dropBlankLines (literal : List Char) : List Char :=
  let kept := Text.dropRightWhile (fun c => Line.isIndent c || c == '\n') literal
  kept ++ (literal.drop kept.length).takeWhile (· != '\n') ++ ['\n']

/-- What remains of the text of a paragraph after its definitions, if anything. -/
def paragraphOf (text : List Char) : List RawNode :=
  match LinkSource.lineEnd? text with
  | some _ => []
  | none => [.paragraph text]

/-- The definitions and blocks that a leaf leaves behind when it ends. -/
def Leaf.finish : Leaf → List Definition × List RawNode
  | .paragraph text _ =>
    let (definitions, rest) := LinkSource.splitDefinitions text
    (definitions, paragraphOf rest)
  | .indentedCode literal => ([], [.code [] (dropBlankLines literal)])
  | .fencedCode _ _ info literal =>
    ([], [.code (unescape (Text.trimLayout (resolveReferences info))) literal])
  | .html _ literal => ([], [.html literal])
  | .table alignments rows => ([], [.table alignments rows.reverse])

namespace Outline

/-- The outline before the first line. -/
def empty : Outline := ⟨[.root []], none, []⟩

/-- The outline with blocks added to the innermost frame. -/
def addNodes (o : Outline) (nodes : List RawNode) : Outline :=
  match o.frames with
  | f :: frames => { o with frames := nodes.foldl (fun f n => f.add n) f :: frames }
  | [] => o

/-- The outline without an open leaf. -/
def closeLeaf (o : Outline) : Outline :=
  match o.leaf with
  | none => o
  | some leaf =>
    let (definitions, nodes) := leaf.finish
    { o with leaf := none, definitions := o.definitions ++ definitions }.addNodes nodes

/-- The outline in which only the outermost frames are open. -/
def closeTo (kept : Nat) (o : Outline) : Outline :=
  let o := o.closeLeaf
  { o with frames := closeFrames (o.frames.length - kept) o.frames }

/-- The outline in which the last item of the innermost list is not open. -/
def closeItem (o : Outline) : Outline :=
  match o.frames with
  | f :: frames => { o with frames := f.closeItem :: frames }
  | [] => o

/-- The outline in which a block can be added: no leaf is open, and no list without an item is. -/
def makeRoom (o : Outline) : Outline :=
  let o := o.closeLeaf
  match o.frames with
  | .list _ _ none :: _ => { o with frames := closeFrames 1 o.frames }
  | _ => o

/-- The outline with one more block. -/
def addNode (o : Outline) (n : RawNode) : Outline :=
  o.makeRoom.addNodes [n]

/-- The outline with a new leaf. -/
def openLeaf (o : Outline) (leaf : Leaf) : Outline :=
  { o.makeRoom with leaf := some leaf }

/-- The outline with a new frame. -/
def openFrame (o : Outline) (f : Frame) : Outline :=
  let o := o.makeRoom
  { o with frames := f :: o.frames }

/-- The outline with a new item.  It belongs to the innermost list if that has no open item and its
items have the same bullet. -/
def openItem (o : Outline) (bullet : Bullet) (width : Nat) : Outline :=
  let o := o.closeLeaf
  match o.frames with
  | .list bullet' items none :: frames =>
    if bullet = bullet' then { o with frames := .list bullet items (some ⟨width, []⟩) :: frames }
    else o.openFrame (.list bullet [] (some ⟨width, []⟩))
  | _ => o.openFrame (.list bullet [] (some ⟨width, []⟩))

end Outline

end Interdoc.Markdown

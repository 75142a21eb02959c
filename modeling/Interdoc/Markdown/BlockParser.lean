import Interdoc.Markdown.Outline
import Interdoc.Markdown.Row

/-!
# Reading blocks

A text is read line by line.  A line is first matched against the open blocks, from the outside in;
each one asks for its own prefix.  What is left of the line may then open new blocks.  If it opens
none and some open block was not matched, text continues an open paragraph all the same; in all
other cases the blocks that were not matched end.
-/

namespace Interdoc.Markdown

open LinkSource (Definition)

/-! ### Matching a line against the open blocks -/

/-- The line after the mark of a quote. -/
def Line.afterQuote? (l : Line) : Option Line :=
  if l.indent ≤ 3 && l.content.head? == some '>' then
    some (l.dropColumns (l.indent + 1)).dropOptionalBlank
  else none

/-- How far a line matches the open frames. -/
structure FrameMatch where
  /-- The frames that stay open. -/
  kept : Nat
  /-- Whether the last item stays open, if the innermost of these frames is a list. -/
  keepsItem : Bool
  /-- Whether every frame matched. -/
  isComplete : Bool
  /-- What is left of the line. -/
  line : Line

/-- The match of a line against frames, the outermost one first, after a number of frames that have
matched.  A blank line belongs to an item only if there is something in it. -/
def matchFrames (hasLeaf : Bool) : (kept : Nat) → List Frame → Line → FrameMatch
  | kept, [], l => ⟨kept, true, true, l⟩
  | kept, .root _ :: frames, l => matchFrames hasLeaf (kept + 1) frames l
  | kept, .quote _ :: frames, l =>
    match l.afterQuote? with
    | some l => matchFrames hasLeaf (kept + 1) frames l
    | none => ⟨kept, true, false, l⟩
  | kept, .list _ _ none :: frames, l => matchFrames hasLeaf (kept + 1) frames l
  | kept, .list _ _ (some item) :: frames, l =>
    if item.width ≤ l.indent then
      matchFrames hasLeaf (kept + 1) frames (l.dropColumns item.width)
    else if l.isBlank && (!item.nodes.isEmpty || !frames.isEmpty || hasLeaf) then
      matchFrames hasLeaf (kept + 1) frames l.dropIndent
    else ⟨kept + 1, false, false, l⟩

/-- The line after a number of columns, as far as they are blank. -/
def Line.dropBlanks : (count : Nat) → Line → Line
  | 0, l => l
  | count + 1, l =>
    if (l.rest.head?.map Line.isIndent).getD false then dropBlanks count l.dropColumn else l

/-- What is left of a line that a leaf goes on with. -/
def Leaf.match? (leaf : Leaf) (l : Line) : Option Line :=
  match leaf with
  | .paragraph _ _ => if l.isBlank then none else some l
  | .indentedCode _ =>
    if 4 ≤ l.indent then some (l.dropColumns 4) else if l.isBlank then some l.dropIndent else none
  | .fencedCode _ blanks _ _ => some (l.dropBlanks blanks)
  | .html kind _ => if kind.endsAtBlank && l.isBlank then none else some l
  | .table _ _ => if (rowCells? l.content).isSome then some l else none

/-- Whether a line ends the leaf and has nothing else. -/
def Leaf.isClosedBy (leaf : Leaf) (l : Line) : Bool :=
  match leaf with
  | .fencedCode fence _ _ _ => l.indent ≤ 3 && fence.isClosedBy l.content
  | _ => false

/-! ### Opening blocks -/

/-- A list of cells cut or filled up to a number of columns. -/
def fillRow (columns : Nat) (cells : List (List Char)) : List (List Char) :=
  cells.take columns ++ List.replicate (columns - cells.length) []

/-- The last line of a text whose lines are all ended, and what precedes it. -/
def lastLine (text : List Char) : List Char × List Char :=
  let reversed := (text.reverse.dropWhile (· == '\n'))
  let last := reversed.takeWhile (· != '\n')
  (last.reverse, (reversed.drop last.length).reverse)

/-- The outline after the line below the header of a table, if a table begins with it: its cells are
as many as those in the last line of the paragraph, whose other lines remain a paragraph. -/
def openTable? (o : Outline) (text rule : List Char) : Option Outline :=
  let (header, preface) := lastLine text
  match rowCells? rule, rowCells? header with
  | some rules, some cells =>
    if isRuleRow rule && rules.length == cells.length then
      let preface := Text.trimLayout (unescapeBars preface)
      let o := { o with leaf := none }
      let o := if preface.isEmpty then o else o.addNode (.paragraph preface)
      some (o.openLeaf (.table (rules.map columnAlignment?) [cells]))
    else none
  | _, _ => none

/-- The outline after a line that makes the open paragraph a heading.  If the paragraph has nothing
but definitions, the line becomes its text. -/
def underlineParagraph (o : Outline) (text : List Char) (isNoTable : Bool) (level : Nat)
    (l : Line) : Outline :=
  let (definitions, rest) := LinkSource.splitDefinitions text
  let o := { o with leaf := none, definitions := o.definitions ++ definitions }
  match paragraphOf rest with
  | [] => { o with leaf := some (.paragraph (rest ++ l.dropIndent.toText) isNoTable) }
  | _ => o.addNode (.heading level rest)

/-- The outline with new raw HTML, which may end with its first line. -/
def openHtml (o : Outline) (kind : HtmlKind) (l : Line) : Outline :=
  let o := o.openLeaf (.html kind l.toText)
  if kind.isClosedBy l.content then o.closeLeaf else o

/-- The width of an item and what is left of the line after its marker, which is so many characters
long.  The content begins at the first character after the marker, unless that is more than four
columns away or missing; then it begins one column after the marker. -/
def itemStart (length : Nat) (l : Line) : Nat × Line :=
  let rest := l.dropIndent.dropChars length
  let blanks := rest.indent
  if blanks = 0 || 4 < blanks || rest.isBlank then
    (l.indent + length + 1, if blanks = 0 then rest else rest.dropColumn)
  else (l.indent + length + blanks, rest.dropColumns blanks)

/-- What a line does to an outline when it opens a block. -/
inductive Opening where
  /-- The line is used up. -/
  | last (o : Outline)
  /-- More may follow in the line. -/
  | more (o : Outline) (l : Line)

/-- The block that a line opens, if it opens any.  Indentation by four columns or more is code,
unless the line may continue a paragraph. -/
def open? (mayContinue : Bool) (depth : Nat) (o : Outline) (l : Line) : Option Opening :=
  let s := l.content
  if 4 ≤ l.indent then
    if mayContinue || l.isBlank then none
    else some (.last (o.openLeaf (.indentedCode (l.dropColumns 4).toText)))
  else
    let paragraph? := match o.leaf with
      | some (.paragraph text isNoTable) => some (text, isNoTable)
      | _ => none
    match l.afterQuote? with
    | some l => some (.more (o.openFrame (.quote [])) l)
    | none =>
    match numberSignHeading? s with
    | some (level, text) => some (.last (o.addNode (.heading level text)))
    | none =>
    match fence? s with
    | some (fence, info) =>
      let blanks := (l.rest.takeWhile Line.isIndent).length
      some (.last (o.openLeaf (.fencedCode fence blanks info [])))
    | none =>
    match htmlKind? paragraph?.isSome s with
    | some kind => some (.last (openHtml o kind l))
    | none =>
    match paragraph?, underlineLevel? s with
    | some (text, isNoTable), some level =>
      some (.last (underlineParagraph o text isNoTable level l))
    | _, _ =>
    if isRuleLine s then some (.last (o.addNode .rule))
    else
    match if depth < 100 then bullet? paragraph?.isSome s else none with
    | some (bullet, length) =>
      let (width, rest) := itemStart length l
      some (.more (o.openItem bullet width) rest)
    | none =>
    match o.leaf with
    | some (.paragraph text false) => (openTable? o text s).map .last
    | some (.table alignments rows) =>
      (rowCells? s).map fun cells =>
        .last { o with leaf := some (.table alignments (fillRow alignments.length cells :: rows)) }
    | _ => none

/-- The outline after the rest of a line that has opened a block, given the number of characters
that can open more. -/
def openMore : (fuel depth : Nat) → Outline → Line → Outline
  | 0, _, o, _ => o
  | fuel + 1, depth, o, l =>
    match open? false depth o l with
    | some (.last o) => o
    | some (.more o l) => openMore fuel (depth + 1) o l
    | none => if l.isBlank then o else o.openLeaf (.paragraph l.dropIndent.toText false)

/-! ### Lines -/

/-- Whether the leaf is a paragraph. -/
def Leaf.isParagraph : Leaf → Bool
  | .paragraph _ _ => true
  | _ => false

/-- The leaf with one more line of text. -/
def Leaf.append (l : Line) : Leaf → Leaf
  | .paragraph text isNoTable => .paragraph (text ++ l.toText) isNoTable
  | .indentedCode literal => .indentedCode (literal ++ l.toText)
  | .fencedCode fence blanks info literal => .fencedCode fence blanks info (literal ++ l.toText)
  | .html kind literal => .html kind (literal ++ l.toText)
  | .table alignments rows => .table alignments rows

namespace Outline

/-- The outline after a line that goes on with a leaf and opens no block. -/
def extend (o : Outline) (leaf : Leaf) (l : Line) : Outline :=
  match leaf with
  | .paragraph text isNoTable =>
    let failed := isNoTable || (l.indent < 4 && isRuleRow l.content)
    { o with leaf := some ((Leaf.paragraph text failed).append l.dropIndent) }
  | .html kind _ =>
    let o := { o with leaf := some (leaf.append l) }
    if kind.isClosedBy l.content then o.closeLeaf else o
  | _ => { o with leaf := some (leaf.append l) }

/-- The outline after the rest of a line, given one in which the unmatched blocks have ended. -/
def openLine (o closed : Outline) (l : Line) : Outline :=
  let continues := (o.leaf.map Leaf.isParagraph).getD false
  match open? continues 1 closed l with
  | some (.last o) => o
  | some (.more o rest) => openMore (l.rest.length + 1) 2 o rest
  | none =>
    match closed.leaf, o.leaf with
    | some leaf, _ => closed.extend leaf l
    | none, some leaf =>
      if l.isBlank then closed
      else if leaf.isParagraph then { o with leaf := some (leaf.append l) }
      else closed.openLeaf (.paragraph l.dropIndent.toText false)
    | none, none =>
      if l.isBlank then closed else closed.openLeaf (.paragraph l.dropIndent.toText false)

/-- The outline after one more line. -/
def addLine (o : Outline) (s : List Char) : Outline :=
  let m := matchFrames o.leaf.isSome 0 o.frames.reverse ⟨s, 0, false⟩
  match if m.isComplete then o.leaf else none with
  | none =>
    let closed := if m.isComplete then o else o.closeTo m.kept
    openLine o (if m.keepsItem then closed else closed.closeItem) m.line
  | some leaf =>
    if leaf.isClosedBy m.line then o.closeLeaf
    else
      match leaf, leaf.match? m.line with
      | _, none => openLine o o.closeLeaf m.line
      | .paragraph _ _, some l => openLine o o l
      | .table _ _, some l => openLine o o l
      | _, some l => o.extend leaf l

/-- The blocks and definitions of a text. -/
def ofText (s : List Char) : List RawNode × List Definition :=
  let o := (linesOf s).foldl addLine empty
  let o := o.closeTo 1
  (o.frames.flatMap Frame.toNodes, o.definitions)

end Outline

end Interdoc.Markdown

import Interdoc.Html.Category
import Interdoc.Html.Token

/-!
# Building a tree from tokens

The state of a reader of HTML: the tree so far, the elements that are open, the formatting that is
in force, and the mode that decides what the next token means.

The rules of a mode take the state and a token to a new state and say how to go on (`Next`): with
the next token, with the same token in another mode, or with text that is not made of tokens.
-/

namespace Interdoc.Html

/-- Where in a document a reader is. -/
inductive Mode where
  | initial | beforeHtml | beforeHead | inHead | afterHead | inBody
  | inTable | inTableText | inCaption | inColumnGroup | inTableBody | inRow | inCell
  | inSelect | inSelectInTable | inTemplate | afterBody | inFrameset | afterFrameset
  | afterAfterBody | afterAfterFrameset
  deriving DecidableEq, Repr, Inhabited

/-- A formatting element in force, or a mark that ends the search for one. -/
inductive Formatting where
  | mark
  | element (n : Nat) (tag : Tag)

/-- The state of a reader. -/
structure Builder where
  draft : Draft
  mode : Mode
  /-- The open elements, innermost first. -/
  stack : List Nat
  /-- The formatting in force, latest first. -/
  formatting : List Formatting
  /-- The mode to return to after text in a table. -/
  tableMode : Mode
  /-- The text in a table that has no place yet, last character first. -/
  tableText : List Char
  /-- The modes of the open templates, innermost first. -/
  templateModes : List Mode
  /-- The contents of the templates. -/
  templates : List (Nat × Nat)
  head : Option Nat
  form : Option Nat
  /-- Whether a frameset may still take the place of the body. -/
  allowsFrameset : Bool
  /-- Whether the document is read as an old one. -/
  isOld : Bool
  /-- Whether content with no place in a table is put before it. -/
  fosters : Bool
  /-- Whether a line feed that comes next is dropped. -/
  skipsLineFeed : Bool

/-- How a reader goes on after a token. -/
inductive Next where
  | done
  /-- With the same token in another mode. -/
  | again (mode : Mode)
  /-- With the content of an element that holds no elements. -/
  | raw (kind : RawKind) (n : Nat)
  /-- With the rest of the text, all of it characters. -/
  | plain

namespace Builder

/-- The state at the start of a document. -/
def new : Builder where
  draft := .new
  mode := .initial
  stack := []
  formatting := []
  tableMode := .inTable
  tableText := []
  templateModes := []
  templates := []
  head := none
  form := none
  allowsFrameset := true
  isOld := false
  fosters := false
  skipsLineFeed := false

/-- The state, to go on with the next token. -/
def done (b : Builder) : Builder × Next := (b, .done)

/-- The state, to go on with the same token in another mode. -/
def again (mode : Mode) (b : Builder) : Builder × Next := ({ b with mode }, .again mode)

/-- The state with another mode. -/
def goTo (mode : Mode) (b : Builder) : Builder := { b with mode }

/-! ### Open elements -/

/-- Whether a node is an element with a name in a category. -/
def satisfies (b : Builder) (p : Category) (n : Nat) : Bool :=
  (b.draft.name? n).any p

/-- Whether the innermost open element is in a category. -/
def currentIs (b : Builder) (p : Category) : Bool :=
  b.stack.head?.any (b.satisfies p)

/-- Whether some open element is in a category. -/
def hasOpen (b : Builder) (p : Category) : Bool :=
  b.stack.any (b.satisfies p)

/-- Whether a template is open. -/
def isInTemplate (b : Builder) : Bool :=
  b.hasOpen (.isHtml "template")

/-- Whether one of the elements satisfies a predicate and no element before it bounds the scope. -/
def inScopeAmong (b : Builder) (bounds : Category) (p : Nat → Bool) : List Nat → Bool
  | [] => false
  | n :: rest => p n || (!b.satisfies bounds n && inScopeAmong b bounds p rest)

/-- Whether a node is open and in scope. -/
def nodeInScope (b : Builder) (n : Nat) : Bool :=
  b.inScopeAmong .boundsScope (· == n) b.stack

/-- Whether an element in a category is in scope. -/
def inScope (b : Builder) (bounds p : Category) : Bool :=
  b.inScopeAmong bounds (b.satisfies p) b.stack

/-- The innermost open element closed. -/
def pop (b : Builder) : Builder :=
  { b with stack := b.stack.drop 1 }

/-- The open elements closed up to and with the first in a category. -/
def closeTo (p : Category) (b : Builder) : Builder :=
  { b with stack := (b.stack.dropWhile fun n => !b.satisfies p n).drop 1 }

/-- The open elements closed up to the first in a category. -/
def closeInside (p : Category) (b : Builder) : Builder :=
  { b with stack := b.stack.dropWhile fun n => !b.satisfies p n }

/-- The open elements closed whose end tag may be left out. -/
def closeImplied (p : Category) (b : Builder) : Builder :=
  { b with stack := b.stack.dropWhile (b.satisfies p) }

/-- The open elements closed whose end tag may be left out, other than those of a name. -/
def closeImpliedExcept (name : String) (b : Builder) : Builder :=
  b.closeImplied fun n => Category.mayEnd n && !Category.isHtml name n

/-- A node taken from the open elements. -/
def unstack (n : Nat) (b : Builder) : Builder :=
  { b with stack := b.stack.filter (· != n) }

/-- An element closed with all open elements in it whose end tag may be left out. -/
def closeElement (name : String) (b : Builder) : Builder :=
  (b.closeImplied .mayEnd).closeTo (.isHtml name)

/-- The open paragraph closed, if there is one in scope. -/
def closeParagraph (b : Builder) : Builder :=
  if b.inScope .boundsButtonScope (.isHtml "p") then
    (b.closeImpliedExcept "p").closeTo (.isHtml "p")
  else b

/-! ### Inserting -/

/-- A place for a node: behind the children of another, or before a table; the fallback is where it
goes if the table is in no tree. -/
inductive Place where
  | last (parent : Nat)
  | beforeTable (table fallback : Nat)

/-- The place inside an element: that of its content if it is a template. -/
def placeInside (b : Builder) (n : Nat) : Place :=
  .last ((b.templates.lookup n).getD n)

/-- The place for a node that a table has no place for, by the open elements. -/
def fosterPlace (b : Builder) : List Nat → Place
  | [] => .last Draft.document
  | [n] => .last n
  | n :: m :: rest =>
    if b.satisfies (.isHtml "template") n then b.placeInside n
    else if b.satisfies (.isHtml "table") n then .beforeTable n m
    else fosterPlace b (m :: rest)

/-- The place for a node that is to go inside an element. -/
def placeFor (b : Builder) (target : Nat) : Place :=
  if b.fosters && b.satisfies .refusesText target then b.fosterPlace b.stack
  else b.placeInside target

/-- The place for the next node. -/
def place (b : Builder) : Place :=
  b.placeFor (b.stack.head?.getD Draft.document)

/-- A node put in a place. -/
def put (n : Nat) (place : Place) (b : Builder) : Builder :=
  match place with
  | .last parent => { b with draft := b.draft.append parent n }
  | .beforeTable table fallback =>
    if (b.draft.parent? table).isSome then { b with draft := b.draft.insertBefore table n }
    else { b with draft := b.draft.append fallback n }

/-- A character put in the next place; the document itself holds none. -/
def insertChar (c : Char) (b : Builder) : Builder :=
  match b.place with
  | .last parent =>
    if parent = Draft.document then b else { b with draft := b.draft.appendChar parent c }
  | .beforeTable table fallback =>
    if (b.draft.parent? table).isSome then { b with draft := b.draft.insertCharBefore table c }
    else { b with draft := b.draft.appendChar fallback c }

/-- A new element, with a place for its content if it is a template. -/
def create (space : Space) (tag : Tag) (b : Builder) : Nat × Builder :=
  let (n, draft) := b.draft.add (.element ⟨space, tag.name⟩ tag.attributes)
  if space = .html ∧ tag.name = "template" then
    let (content, draft) := draft.add .root
    (n, { b with draft, templates := (n, content) :: b.templates })
  else (n, { b with draft })

/-- A new element in the next place. -/
def insertElement (space : Space) (tag : Tag) (b : Builder) : Nat × Builder :=
  let (n, b) := b.create space tag
  (n, b.put n b.place)

/-- A new open element in the next place. -/
def openElement (space : Space) (tag : Tag) (b : Builder) : Nat × Builder :=
  let (n, b) := b.insertElement space tag
  (n, { b with stack := n :: b.stack })

/-- An element of HTML opened in the next place. -/
def insert (tag : Tag) (b : Builder) : Builder :=
  (b.openElement .html tag).2

/-- An element of HTML without content put in the next place. -/
def insertVoid (tag : Tag) (b : Builder) : Builder :=
  (b.insertElement .html tag).2

/-- An element that the text does not mention, opened in the next place. -/
def insertImplied (name : String) (b : Builder) : Builder :=
  b.insert ⟨name, [], false⟩

/-- A comment in the next place. -/
def insertComment (b : Builder) : Builder :=
  let (n, draft) := b.draft.add .comment
  { b with draft }.put n b.place

/-- A comment at the end of a node. -/
def insertCommentIn (parent : Nat) (b : Builder) : Builder :=
  let (n, draft) := b.draft.add .comment
  { b with draft := draft.append parent n }

/-- An element whose content is not made of tokens, put in the next place. -/
def insertRaw (kind : RawKind) (tag : Tag) (b : Builder) : Builder × Next :=
  let (n, b) := b.insertElement .html tag
  (b, .raw kind n)

/-- The state in which no frameset can take the place of the body. -/
def refuseFrameset (b : Builder) : Builder :=
  { b with allowsFrameset := false }

/-! ### The mode of an open element -/

/-- The mode inside a selection that is open in the given elements. -/
def selectMode (b : Builder) : List Nat → Mode
  | [] => .inSelect
  | n :: rest =>
    if b.satisfies (.isHtml "template") n then .inSelect
    else if b.satisfies (.isHtml "table") n then .inSelectInTable
    else selectMode b rest

/-- The mode that open elements ask for. -/
def modeAmong (b : Builder) : List Nat → Mode
  | [] => .inBody
  | n :: outer =>
    let isName (name : String) := b.satisfies (.isHtml name) n
    if isName "select" then b.selectMode outer
    else if b.satisfies .isCell n && !outer.isEmpty then .inCell
    else if isName "tr" then .inRow
    else if b.satisfies (.isAmong ["tbody", "thead", "tfoot"]) n then .inTableBody
    else if isName "caption" then .inCaption
    else if isName "colgroup" then .inColumnGroup
    else if isName "table" then .inTable
    else if isName "template" then b.templateModes.headD .inBody
    else if isName "head" && !outer.isEmpty then .inHead
    else if isName "body" then .inBody
    else if isName "frameset" then .inFrameset
    else if isName "html" then if b.head.isSome then .afterHead else .beforeHead
    else modeAmong b outer

/-- The mode that the open elements ask for. -/
def properMode (b : Builder) : Mode :=
  b.modeAmong b.stack

end Builder

end Interdoc.Html

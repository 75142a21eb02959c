import Interdoc.Html.Node

/-!
# Trees under construction

While an HTML text is read, elements move: misnested formatting is taken apart and copied, and text
that cannot stand in a table is put before it.  A `Draft` is a forest whose nodes are known by
number, so that a node keeps its identity wherever it moves.  Each node knows its parent and its
children, and has at most one parent.

`Draft.toNode` makes the finished tree below a node.
-/

namespace Interdoc.Html

/-- The vocabulary that an element is taken from. -/
inductive Space where
  | html | math | svg
  deriving DecidableEq, Repr, Inhabited

/-- The name of an element, in lower case. -/
structure ElementName where
  space : Space
  name : String
  deriving DecidableEq, Repr, Inhabited

/-- What a node of a draft is. -/
inductive DraftContent where
  | element (name : ElementName) (attributes : List (String × String))
  /-- A text, last character first. -/
  | text (reversed : List Char)
  | comment
  /-- The whole document, or the content of a template. -/
  | root

/-- A node of a draft. -/
structure DraftNode where
  content : DraftContent
  parent : Option Nat
  children : Array Nat

/-- A forest of numbered nodes. -/
structure Draft where
  nodes : Array DraftNode

namespace Draft

/-- The number of the document in a new draft. -/
def document : Nat := 0

/-- A draft with nothing but a document. -/
def new : Draft :=
  ⟨#[⟨.root, none, #[]⟩]⟩

/-- A node that is in no tree. -/
def add (d : Draft) (content : DraftContent) : Nat × Draft :=
  (d.nodes.size, ⟨d.nodes.push ⟨content, none, #[]⟩⟩)

/-- The name of an element. -/
def name? (d : Draft) (n : Nat) : Option ElementName :=
  match d.nodes[n]? with
  | some ⟨.element name _, _, _⟩ => some name
  | _ => none

/-- The attributes of an element. -/
def attributes (d : Draft) (n : Nat) : List (String × String) :=
  match d.nodes[n]? with
  | some ⟨.element _ attributes, _, _⟩ => attributes
  | _ => []

/-- The parent of a node. -/
def parent? (d : Draft) (n : Nat) : Option Nat :=
  d.nodes[n]?.bind (·.parent)

/-- The children of a node. -/
def children (d : Draft) (n : Nat) : Array Nat :=
  (d.nodes[n]?.map (·.children)).getD #[]

/-- A draft with one node changed. -/
def modify (d : Draft) (n : Nat) (f : DraftNode → DraftNode) : Draft :=
  ⟨d.nodes.modify n f⟩

/-! ### Moving nodes -/

/-- A node taken out of its parent. -/
def detach (d : Draft) (n : Nat) : Draft :=
  match d.parent? n with
  | none => d
  | some p =>
    (d.modify p fun x => { x with children := x.children.filter (· != n) }).modify n
      fun x => { x with parent := none }

/-- A node put behind the children of another. -/
def append (d : Draft) (parent n : Nat) : Draft :=
  ((d.detach n).modify parent fun x => { x with children := x.children.push n }).modify n
    fun x => { x with parent := some parent }

/-- The place of a node among the children of its parent. -/
def place? (d : Draft) (n : Nat) : Option (Nat × Nat) := do
  let p ← d.parent? n
  let i ← (d.children p).idxOf? n
  return (p, i)

/-- A node put before another, if that has a parent. -/
def insertBefore (d : Draft) (sibling n : Nat) : Draft :=
  let d := d.detach n
  match d.place? sibling with
  | none => d
  | some (p, i) =>
    let put (x : DraftNode) : DraftNode :=
      { x with children := x.children.take i ++ #[n] ++ x.children.drop i }
    (d.modify p put).modify n fun x => { x with parent := some p }

/-- All children of a node put behind those of another. -/
def moveChildren (d : Draft) (source target : Nat) : Draft :=
  (d.children source).foldl (fun d n => d.append target n) d

/-! ### Text -/

/-- A character put behind a node if that is a text. -/
def extendText? (d : Draft) (n : Option Nat) (c : Char) : Option Draft :=
  match n with
  | none => none
  | some n =>
    match d.nodes[n]? with
    | some ⟨.text _, _, _⟩ =>
      some (d.modify n fun x =>
        match x.content with
        | .text reversed => { x with content := .text (c :: reversed) }
        | _ => x)
    | _ => none

/-- A character put behind the children of a node, in the last of them if that is a text. -/
def appendChar (d : Draft) (parent : Nat) (c : Char) : Draft :=
  match d.extendText? (d.children parent).back? c with
  | some d => d
  | none =>
    let (n, d) := d.add (.text [c])
    d.append parent n

/-- A character put before a node, in the text before it if there is one. -/
def insertCharBefore (d : Draft) (sibling : Nat) (c : Char) : Draft :=
  match d.place? sibling with
  | none => d
  | some (p, i) =>
    match d.extendText? (if i = 0 then none else (d.children p)[i - 1]?) c with
    | some d => d
    | none =>
      let (n, d) := d.add (.text [c])
      d.insertBefore sibling n

/-! ### Finished trees -/

/-- The tree below a node.  The first number bounds its depth. -/
def toNodeWithin (d : Draft) : Nat → Nat → Node
  | 0, _ => .other []
  | depth + 1, n =>
    match d.nodes[n]? with
    | none => .other []
    | some ⟨content, _, children⟩ =>
      let children := children.toList.map (d.toNodeWithin depth)
      match content with
      | .element name attributes => .element name.name attributes children
      | .text reversed => .text (String.ofList reversed.reverse)
      | .comment => .other []
      | .root => .other children

/-- The tree below a node. -/
def toNode (d : Draft) (n : Nat) : Node :=
  d.toNodeWithin (d.nodes.size + 1) n

end Draft

end Interdoc.Html

import Interdoc.Xml.Event

/-!
# XML trees

`Xml.parse?` reads a text as the tree of its first top level element.  Names are local names,
comments and the like are left out, and texts outside all elements are not looked at.

The tree is built from events by a stack of open elements (`Partial`), whose children are collected
in reverse; an element becomes a child when it is closed.  Elements that are still open when the
events end make a fault, which names the innermost.
-/

namespace Interdoc.Xml

/-- A node of a tree: a text, or an element with its attributes and children. -/
inductive Node where
  | text (s : String)
  | element (name : String) (attributes : List (String × String)) (children : List Node)
  deriving Repr, Inhabited

namespace Node

/-- The children of a node. -/
def children : Node → List Node
  | .text _ => []
  | .element _ _ children => children

/-- Whether a node is an element with the name. -/
def isNamed (name : String) : Node → Bool
  | .text _ => false
  | .element n _ _ => n == name

/-- The value of the first attribute with the name. -/
def attribute? (name : String) : Node → Option String
  | .text _ => none
  | .element _ attributes _ => attributes.lookup name

/-- The first child element with the name. -/
def child? (name : String) (node : Node) : Option Node :=
  node.children.find? (isNamed name)

/-- The child elements with the name. -/
def childrenNamed (name : String) (node : Node) : List Node :=
  node.children.filter (isNamed name)

/-- The descendant that a path of child names leads to, taking the first child of each name. -/
def path? (node : Node) : List String → Option Node
  | [] => some node
  | name :: names => (node.child? name).bind (·.path? names)

/-- The attribute `val` of the descendant that a path leads to. -/
def pathValue? (node : Node) (names : List String) : Option String :=
  (node.path? names).bind (·.attribute? "val")

/-- The texts directly inside an element, joined. -/
def ownText (node : Node) : String :=
  String.join (node.children.map fun
    | .text s => s
    | .element _ _ _ => "")

mutual

/-- The descendant elements with the name, in document order. -/
def descendants (name : String) : Node → List Node
  | .text _ => []
  | .element _ _ children => descendantsAmong name children

/-- The elements with the name among nodes and their descendants, in document order. -/
def descendantsAmong (name : String) : List Node → List Node
  | [] => []
  | node :: rest =>
    (if node.isNamed name then [node] else []) ++ node.descendants name ++
      descendantsAmong name rest

end

end Node

/-! ### Building -/

/-- An open element, its children so far in reverse. -/
structure Partial where
  name : String
  attributes : List (String × String)
  reversed : List Node

/-- The element, once it is closed. -/
def Partial.close (p : Partial) : Node :=
  .element p.name p.attributes p.reversed.reverse

/-- The open element with one more child. -/
def Partial.push (p : Partial) (child : Node) : Partial :=
  { p with reversed := child :: p.reversed }

/-- A tree in the making: the open elements, the innermost first, and the first element that was
closed outside all others. -/
structure Building where
  opened : List Partial
  root : Option Node

namespace Building

/-- Nothing read yet. -/
def empty : Building := ⟨[], none⟩

/-- A finished node put where it belongs. -/
def attach (b : Building) (node : Node) : Building :=
  match b.opened with
  | p :: outer => { b with opened := p.push node :: outer }
  | [] => { b with root := b.root.or (some node) }

/-- An element with a start tag, without children. -/
def ofTag (tag : Tag) : Except Fault Partial :=
  match tag.attributes? with
  | .error e => .error e
  | .ok attributes => .ok ⟨String.ofList (localName tag.name), attributes, []⟩

/-- The tree after one more event. -/
def step (b : Building) : Event → Except Fault Building
  | .start tag =>
    match ofTag tag with
    | .error e => .error e
    | .ok p => .ok { b with opened := p :: b.opened }
  | .empty tag =>
    match ofTag tag with
    | .error e => .error e
    | .ok p => .ok (b.attach p.close)
  | .finish _ =>
    match b.opened with
    | [] => .error .unbalancedEnd
    | p :: outer => .ok ({ b with opened := outer }.attach p.close)
  | .text raw =>
    if b.opened.isEmpty then .ok b
    else match unescape? raw with
      | .error e => .error e
      | .ok s => .ok (b.attach (.text (String.ofList s)))
  | .data s => if b.opened.isEmpty then .ok b else .ok (b.attach (.text (String.ofList s)))
  | .other => .ok b

/-- The tree after a sequence of events. -/
def run (b : Building) : List Event → Except Fault Building
  | [] => .ok b
  | e :: rest =>
    match b.step e with
    | .error fault => .error fault
    | .ok b => b.run rest

/-- The root, when all is read. -/
def finish (b : Building) : Except Fault Node :=
  match b.opened, b.root with
  | p :: _, _ => .error (.openElement p.name)
  | [], some root => .ok root
  | [], none => .error .noElement

end Building

/-- The tree of a sequence of events. -/
def Node.ofEvents? (events : List Event) : Except Fault Node :=
  match Building.empty.run events with
  | .error fault => .error fault
  | .ok b => b.finish

/-- The tree of a text. -/
def parse? (s : List Char) : Except Fault Node :=
  match events s with
  | (before, none) => Node.ofEvents? before
  | (before, some fault) =>
    match Building.empty.run before with
    | .error earlier => .error earlier
    | .ok _ => .error fault

end Interdoc.Xml

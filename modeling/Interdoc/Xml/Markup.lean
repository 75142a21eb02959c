import Interdoc.Xml.Tree

/-!
# Written XML

`Markup` is XML as it is going to be written: names have their prefixes, and texts and values are in
their escaped form.  `Markup.print` prints it, and `Markup.node?` is the tree that it means, in
which names are local and references are resolved.

`escape` is the form of an arbitrary text.  Line endings are left out, since none of the texts that
are written can hold one.
-/

namespace Interdoc.Xml

/-- XML as it is written. -/
inductive Markup where
  | text (s : List Char)
  | element (name : String) (attributes : List (String × List Char)) (children : List Markup)
  deriving Repr, Inhabited

/-! ### Escaping -/

/-- A character in a text or a value. -/
def escapeChar (c : Char) : List Char :=
  match c with
  | '&' => "&amp;".toList
  | '<' => "&lt;".toList
  | '>' => "&gt;".toList
  | '"' => "&quot;".toList
  | '\x27' => "&apos;".toList
  | '\n' => []
  | '\r' => []
  | c => [c]

/-- The escaped form of a text. -/
def escape (s : List Char) : List Char :=
  s.flatMap escapeChar

/-! ### Sequences of nodes -/

/-- A node in front of others.  An empty text is no node, and two texts in a row are one. -/
def Node.cons (n : Node) (rest : List Node) : List Node :=
  match n with
  | .text s =>
    if s = "" then rest
    else match rest with
      | .text t :: rest => .text (s ++ t) :: rest
      | _ => .text s :: rest
  | _ => n :: rest

namespace Markup

/-! ### Making -/

/-- An element with attributes only. -/
def leaf (name : String) (attributes : List (String × String)) : Markup :=
  .element name (attributes.map fun (n, v) => (n, escape v.toList)) []

/-- An element without attributes. -/
def group (name : String) (children : List Markup) : Markup :=
  .element name [] children

/-! ### Printing -/

/-- An attribute with the space before it. -/
def printAttribute (a : String × List Char) : List Char :=
  ' ' :: a.1.toList ++ '=' :: '"' :: a.2 ++ ['"']

mutual

/-- The text of a piece of markup; an element without children closes itself. -/
def print : Markup → List Char
  | .text s => s
  | .element name attributes [] =>
    '<' :: name.toList ++ attributes.flatMap printAttribute ++ " />".toList
  | .element name attributes (child :: rest) =>
    '<' :: name.toList ++ attributes.flatMap printAttribute ++
      '>' :: print child ++ printAll rest ++ "</".toList ++ name.toList ++ ['>']

/-- The text of a sequence of markup. -/
def printAll : List Markup → List Char
  | [] => []
  | m :: rest => print m ++ printAll rest

end

/-- The text of a document with the markup as its root, which stands on a line of its own. -/
def printDocument (root : Markup) : List Char :=
  "<?xml version=\"1.0\" encoding=\"UTF-8\"?>\n".toList ++ root.print

/-! ### Meaning -/

/-- A value without its references. -/
def value? (a : String × List Char) : Except Fault (String × String) :=
  match unescape? a.2 with
  | .error e => .error e
  | .ok s => .ok (String.ofList (localName a.1.toList), String.ofList s)

mutual

/-- The tree that a piece of markup means. -/
def node? : Markup → Except Fault Node
  | .text s =>
    match unescape? s with
    | .error e => .error e
    | .ok s => .ok (.text (String.ofList s))
  | .element name attributes children =>
    match attributes.mapM value?, nodes? children with
    | .ok attributes, .ok children =>
      .ok (.element (String.ofList (localName name.toList)) attributes children)
    | .error e, _ => .error e
    | .ok _, .error e => .error e

/-- The trees that a sequence of markup means. -/
def nodes? : List Markup → Except Fault (List Node)
  | [] => .ok []
  | m :: rest =>
    match node? m, nodes? rest with
    | .ok n, .ok ns => .ok (n.cons ns)
    | .error e, _ => .error e
    | .ok _, .error e => .error e

end

end Markup

end Interdoc.Xml

/-!
# HTML text

HTML is written as a sequence of pieces: start tags, end tags, tags of elements without content, and
texts.  `Html.render` prints the pieces; characters that HTML gives a meaning to appear in texts and
attribute values only as references (`Html.escape`).

`Html.unescape` is a simple inverse of `escape` that also reads `<br>` as a line feed: it replaces
the four references and the tag one after the other, the ampersand last.
-/

namespace Interdoc.Html

/-- A piece of HTML text. -/
inductive Piece where
  | start (tag : String) (attributes : List (String × String))
  | finish (tag : String)
  /-- The tag of an element without content. -/
  | void (tag : String) (attributes : List (String × String))
  | text (s : String)
  deriving DecidableEq, Repr

/-! ### Escaping -/

/-- A character in a text or an attribute value. -/
def escapeChar (c : Char) : List Char :=
  match c with
  | '&' => "&amp;".toList
  | '<' => "&lt;".toList
  | '>' => "&gt;".toList
  | '"' => "&quot;".toList
  | c => [c]

/-- A text or an attribute value. -/
def escape (s : List Char) : List Char :=
  s.flatMap escapeChar

/-! ### Rendering -/

/-- An attribute with the space before it. -/
def renderAttribute (a : String × String) : List Char :=
  ' ' :: a.1.toList ++ '=' :: '"' :: escape a.2.toList ++ ['"']

/-- A start tag. -/
def renderStart (tag : String) (attributes : List (String × String)) : List Char :=
  '<' :: tag.toList ++ attributes.flatMap renderAttribute ++ ['>']

/-- One piece. -/
def Piece.render : Piece → List Char
  | .start tag attributes => renderStart tag attributes
  | .finish tag => '<' :: '/' :: tag.toList ++ ['>']
  | .void tag attributes => renderStart tag attributes
  | .text s => escape s.toList

/-- A sequence of pieces. -/
def render (pieces : List Piece) : List Char :=
  pieces.flatMap Piece.render

/-- Pieces between the tags of an element. -/
def element (tag : String) (content : List Piece) : List Piece :=
  .start tag [] :: content ++ [.finish tag]

end Interdoc.Html

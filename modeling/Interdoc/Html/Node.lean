import Interdoc.Document.Basic

/-!
# HTML trees

A node is a text, an element, or something that is neither, such as a comment or a whole document,
which may still have children.  The tag of an element is its name in lower case.

The module also reads the values of `style` attributes.
-/

namespace Interdoc.Html

/-- A node of an HTML tree. -/
inductive Node where
  | text (s : String)
  | element (tag : String) (attributes : List (String × String)) (children : List Node)
  | other (children : List Node)
  deriving Repr, Inhabited

namespace Node

/-- Whether a node is an element with the tag. -/
def isTagged (tag : String) : Node → Bool
  | .element t _ _ => t == tag
  | _ => false

/-- The value of an attribute of an element. -/
def attribute? (name : String) : Node → Option String
  | .element _ attributes _ => attributes.lookup name
  | _ => none

mutual

/-- The text of a node and its descendants, with a line feed for each `br`. -/
def textContent : Node → String
  | .text s => s
  | .element tag _ children => if tag = "br" then "\n" else textContentAmong children
  | .other children => textContentAmong children

/-- The text of nodes and their descendants. -/
def textContentAmong : List Node → String
  | [] => ""
  | node :: rest => textContent node ++ textContentAmong rest

end

end Node

/-! ### Styles -/

/-- The declarations of a style: the parts between semicolons, each cut at its first colon. -/
def declarations (style : List Char) : List (List Char × List Char) :=
  (Text.splitOn ';' style).filterMap (Text.splitOnce? [':'])

/-- The value of the first declaration of a property, in lower case and without blanks around it. -/
def styleProperty? (property : String) (style : List Char) : Option (List Char) :=
  ((declarations style).find? fun d => Text.sameLetters (Text.trim d.1) property.toList).map
    fun d => Text.toLower (Text.trim d.2)

/-- Whether a style underlines. -/
def isUnderlineStyle (style : String) : Bool :=
  match styleProperty? "text-decoration" style.toList with
  | some value => Text.contains "underline".toList value
  | none => false

/-- The alignment that the attributes of a cell ask for; the attribute `align` comes before the
style, even if it asks for nothing that is known. -/
def cellAlignment? (attributes : List (String × String)) : Option Alignment :=
  match attributes.lookup "align" with
  | some value => Alignment.ofStyle? value.toList
  | none =>
    ((attributes.lookup "style").bind fun s => styleProperty? "text-align" s.toList).bind
      Alignment.ofStyle?

/-- The language in a `class` attribute: what follows `language-` in the first name that starts so.
-/
def classLanguage? (classes : String) : Option String :=
  ((Text.words classes.toList).findSome? (Text.stripPrefix? "language-".toList)).map String.ofList

end Interdoc.Html

import Interdoc.Markdown.Line
import Interdoc.Markdown.RawHtml

/-!
# How blocks begin

The marks that begin a heading, a fence, raw HTML, a rule or an item of a list.  Each function looks
at a line from its first character on that does not indent.
-/

namespace Interdoc.Markdown

/-! ### Headings and rules -/

/-- The text of a heading without the number signs that close it.  They stand at the end of the line
after a space or tab, or are all there is. -/
def chopNumberSigns (s : List Char) : List Char :=
  let s := Text.trimLayoutRight s
  let kept := Text.dropRightWhile (· == '#') s
  if kept.isEmpty then []
  else if kept.length < s.length && (kept.getLast?.map Line.isIndent).getD false then
    Text.trimLayoutRight kept
  else s

/-- The level and text of a heading that begins with number signs. -/
def numberSignHeading? (s : List Char) : Option (Nat × List Char) :=
  let level := (s.takeWhile (· == '#')).length
  let rest := s.drop level
  let isSet := rest.isEmpty || (rest.head?.map Line.isIndent).getD false
  if 1 ≤ level && level ≤ 6 && isSet then
    some (level, chopNumberSigns (rest.dropWhile Line.isIndent))
  else none

/-- The level of the heading that a line of equals signs or hyphens makes of the paragraph above. -/
def underlineLevel? (s : List Char) : Option Nat :=
  match s with
  | [] => none
  | c :: _ =>
    if (c == '=' || c == '-') && ((s.dropWhile (· == c)).dropWhile Line.isIndent).isEmpty then
      some (if c == '=' then 1 else 2)
    else none

/-- Whether a line is a rule: at least three asterisks, underscores or hyphens of one kind, with
nothing but spaces and tabs between them. -/
def isRuleLine (s : List Char) : Bool :=
  match s with
  | [] => false
  | c :: _ =>
    (c == '*' || c == '_' || c == '-') && s.all (fun d => d == c || Line.isIndent d) &&
      3 ≤ s.count c

/-! ### Fences -/

/-- The mark that begins fenced code. -/
structure Fence where
  char : Char
  length : Nat
  deriving DecidableEq, Repr

/-- The fence that a line begins with, and what follows it.  Backquotes can not follow a fence of
backquotes. -/
def fence? (s : List Char) : Option (Fence × List Char) :=
  match s with
  | [] => none
  | c :: _ =>
    let length := (s.takeWhile (· == c)).length
    let rest := s.drop length
    if 3 ≤ length && (c == '~' || (c == '\x60' && !rest.contains '\x60')) then
      some (⟨c, length⟩, rest)
    else none

/-- Whether a line ends the code that a fence began: it has at least as many of its characters and
nothing else. -/
def Fence.isClosedBy (f : Fence) (s : List Char) : Bool :=
  let length := (s.takeWhile (· == f.char)).length
  3 ≤ length && f.length ≤ length && ((s.drop length).dropWhile Line.isIndent).isEmpty

/-! ### Raw HTML -/

/-- The kinds of raw HTML, by what ends them. -/
inductive HtmlKind where
  /-- Literal content, which ends with a closing tag for such content. -/
  | literal
  | comment
  | instruction
  | declaration
  | cdata
  /-- A tag that is known to be a block, whose content ends with a blank line. -/
  | blockTag
  /-- Another tag on a line of its own, whose content ends with a blank line. -/
  | loneTag
  deriving DecidableEq, Repr

/-- The names of the tags with literal content. -/
def literalTags : List String :=
  ["script", "pre", "textarea", "style"]

/-- The names of the tags that are known to be blocks. -/
def blockTags : List String :=
  ["address", "article", "aside", "base", "basefont", "blockquote", "body", "caption", "center",
    "col", "colgroup", "dd", "details", "dialog", "dir", "div", "dl", "dt", "fieldset",
    "figcaption", "figure", "footer", "form", "frame", "frameset", "h1", "h2", "h3", "h4", "h5",
    "h6", "head", "header", "hr", "html", "iframe", "legend", "li", "link", "main", "menu",
    "menuitem", "nav", "noframes", "ol", "optgroup", "option", "p", "param", "search", "section",
    "summary", "table", "tbody", "td", "tfoot", "th", "thead", "title", "tr", "track", "ul"]

/-- The name of a tag in lower case, and what follows it. -/
def tagNameAt (s : List Char) : String × List Char :=
  let name := s.takeWhile Char.isAlphanum
  (String.ofList (Text.toLower name), s.drop name.length)

/-- The kind of raw HTML after an angle bracket, unless it is a lone tag. -/
def knownHtmlKind? (s : List Char) : Option HtmlKind :=
  match s with
  | '!' :: '-' :: '-' :: _ => some .comment
  | '?' :: _ => some .instruction
  | '!' :: c :: _ =>
    if c.isUpper then some .declaration
    else if Text.startsWith "![cdata[".toList (Text.toLower s) then some .cdata
    else none
  | _ =>
    let (name, after) := tagNameAt s
    let isEnded := match after with
      | [] => true
      | c :: _ => Text.isAsciiSpace c || c == '>'
    if literalTags.contains name && isEnded then some .literal
    else
      let (name, after) := tagNameAt (if s.head? == some '/' then s.drop 1 else s)
      let isEnded := match after with
        | [] => true
        | '/' :: '>' :: _ => true
        | c :: _ => Text.isAsciiSpace c || c == '>'
      if blockTags.contains name && isEnded then some .blockTag else none

/-- Whether nothing but a tag and blanks follows an angle bracket. -/
def isLoneTag (s : List Char) : Bool :=
  match RawHtml.tag? s with
  | some after => after.all fun c => Line.isIndent c || c == '\x0c'
  | none => false

/-- The kind of raw HTML that a line begins with.  A lone tag does not interrupt a paragraph. -/
def htmlKind? (inParagraph : Bool) (s : List Char) : Option HtmlKind :=
  match s with
  | '<' :: rest =>
    (knownHtmlKind? rest).or (if !inParagraph && isLoneTag rest then some .loneTag else none)
  | _ => none

/-- Whether a line ends raw HTML of a kind. -/
def HtmlKind.isClosedBy (kind : HtmlKind) (s : List Char) : Bool :=
  match kind with
  | .literal =>
    literalTags.any fun tag => Text.contains ("</" ++ tag ++ ">").toList (Text.toLower s)
  | .comment => Text.contains "-->".toList s
  | .instruction => Text.contains "?>".toList s
  | .declaration => s.contains '>'
  | .cdata => Text.contains "]]>".toList s
  | .blockTag => false
  | .loneTag => false

/-- Whether a blank line ends raw HTML of a kind. -/
def HtmlKind.endsAtBlank (kind : HtmlKind) : Bool :=
  kind == .blockTag || kind == .loneTag

/-! ### Lists -/

/-- What the items of a list begin with: a bullet, or a number and a delimiter. -/
structure Bullet where
  ordered : Bool
  char : Char
  deriving DecidableEq, Repr

/-- The marker of an item that a line begins with, and its length.  A layout character or the end of
the line must follow.  An item that interrupts a paragraph must not be blank, and if it is numbered
its number is one. -/
def bullet? (interrupts : Bool) (s : List Char) : Option (Bullet × Nat) :=
  let digits := (s.takeWhile Char.isDigit).take 9
  let marker := s.drop digits.length
  match marker with
  | [] => none
  | c :: rest =>
    let isBullet := digits.isEmpty && (c == '*' || c == '-' || c == '+')
    let isNumber := !digits.isEmpty && (c == '.' || c == ')')
    let isSet := rest.isEmpty || (rest.head?.map Text.isLayoutChar).getD false
    let isBlank := (rest.dropWhile Line.isIndent).isEmpty
    let number := digits.foldl (fun n c => 10 * n + (c.toNat - '0'.toNat)) 0
    if (isBullet || isNumber) && isSet &&
        !(interrupts && (isBlank || (isNumber && number != 1))) then
      some (⟨isNumber, c⟩, digits.length + 1)
    else none

end Interdoc.Markdown

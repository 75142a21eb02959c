import Interdoc.Html.Mode.Outer

/-!
# Graphics and mathematics

Inside `svg` and `math` elements every tag makes an element of the same vocabulary, until a tag that
cannot stand there ends them all.  Some elements of these vocabularies hold HTML again.
-/

namespace Interdoc.Html.Builder

/-- Start tags that end all elements of other vocabularies. -/
def breakoutNames : List String :=
  ["b", "big", "blockquote", "body", "br", "center", "code", "dd", "div", "dl", "dt", "em", "embed",
    "h1", "h2", "h3", "h4", "h5", "h6", "head", "hr", "i", "img", "li", "listing", "menu", "meta",
    "nobr", "ol", "p", "pre", "ruby", "s", "small", "span", "strong", "strike", "sub", "sup",
    "table", "tt", "u", "ul", "var"]

/-- Whether the innermost open element is an annotation that holds HTML. -/
def isHtmlAnnotation (b : Builder) (n : Nat) : Bool :=
  match (b.draft.attributes n).lookup "encoding" with
  | some encoding =>
    Text.sameLetters encoding.toList "text/html".toList ||
      Text.sameLetters encoding.toList "application/xhtml+xml".toList
  | none => false

/-- Whether a token in an element is read by the rules for other vocabularies. -/
def isForeignIn (b : Builder) (n : Nat) (name : ElementName) (token : Token) : Bool :=
  match token with
  | .eof => false
  | .char _ =>
    !(Category.holdsMathText name || Category.holdsHtml name ||
      (name == ⟨.math, "annotation-xml"⟩ && b.isHtmlAnnotation n))
  | .start tag =>
    !((Category.holdsMathText name && tag.name != "mglyph" && tag.name != "malignmark") ||
      Category.holdsHtml name ||
      (name == ⟨.math, "annotation-xml"⟩ && (tag.name == "svg" || b.isHtmlAnnotation n)))
  | _ => true

/-- Whether a token is read by the rules for other vocabularies. -/
def isForeign (b : Builder) (token : Token) : Bool :=
  match b.stack with
  | [] => false
  | n :: _ =>
    match b.draft.name? n with
    | some name => name.space != .html && b.isForeignIn n name token
    | none => false

/-- Whether the innermost open element is of another vocabulary. -/
def isInForeign (b : Builder) : Bool :=
  b.currentIs fun n => n.space != .html

/-- All elements of other vocabularies closed that do not hold HTML. -/
def leaveForeign (b : Builder) : Builder :=
  b.closeInside fun n => n.space == .html || Category.holdsMathText n || Category.holdsHtml n

/-- Whether a start tag ends all elements of other vocabularies. -/
def breaksOut (tag : Tag) : Bool :=
  breakoutNames.contains tag.name ||
    (tag.name == "font" &&
      tag.attributes.any fun a => a.1 == "color" || a.1 == "face" || a.1 == "size")

/-- The space of the innermost open element. -/
def currentSpace (b : Builder) : Space :=
  ((b.stack.head?.bind b.draft.name?).map (·.space)).getD .html

/-- An end tag in another vocabulary: the innermost open element of the name is closed, and an
element of HTML on the way takes the tag over. -/
def finishForeign (name : String) (token : Token) (b : Builder) : Builder × Next :=
  let isNamed (n : Nat) : Bool := ((b.draft.name? n).map (·.name)) == some name
  let isHtml (n : Nat) : Bool := b.satisfies (fun x => x.space == .html) n
  match b.stack with
  | [] => b.done
  | current :: outer =>
    if outer.isEmpty then b.done
    else if isNamed current then b.pop.done
    else
      match outer.find? fun n => isHtml n || isNamed n with
      | none => b.done
      | some n =>
        if some n = outer.getLast? then b.done
        else if isHtml n then b.step b.mode token
        else { b with stack := (b.stack.dropWhile (· != n)).drop 1 }.done

/-- A token in another vocabulary. -/
def stepForeign (b : Builder) (token : Token) : Builder × Next :=
  match token with
  | .char c =>
    if c = '\x00' then (b.insertChar replacement).done
    else ((if Text.isAsciiBlank c then b else b.refuseFrameset).insertChar c).done
  | .comment => b.insertComment.done
  | .start tag =>
    if breaksOut tag then
      let b := b.leaveForeign
      b.step b.mode token
    else (b.enterForeign b.currentSpace (plainAttributes tag)).done
  | .finish name =>
    if name = "br" || name = "p" then
      let b := b.leaveForeign
      b.step b.mode token
    else b.finishForeign name token
  | .doctype _ | .eof => b.done

end Interdoc.Html.Builder

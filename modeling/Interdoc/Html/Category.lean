import Interdoc.Html.Draft

/-!
# Categories of elements

The rules for reading HTML speak of categories of elements: those that open a scope, those whose end
tag may be left out, those that are special in that they stop the search for an open element.  A
category is a predicate on names.
-/

namespace Interdoc.Html

/-- A category of elements, by their names. -/
abbrev Category := ElementName → Bool

namespace Category

/-- Whether a name is one of some names of HTML. -/
def isAmong (names : List String) : Category := fun n =>
  n.space == .html && names.contains n.name

/-- Whether a name is a certain name of HTML. -/
def isHtml (name : String) : Category := fun n =>
  n.space == .html && n.name == name

/-- The elements of mathematics that hold HTML text. -/
def holdsMathText : Category := fun n =>
  n.space == .math && ["mi", "mo", "mn", "ms", "mtext"].contains n.name

/-- The elements of graphics that hold HTML. -/
def holdsHtml : Category := fun n =>
  n.space == .svg && ["foreignobject", "desc", "title"].contains n.name

/-! ### Scopes -/

/-- The elements that bound the usual scope. -/
def boundsScope : Category := fun n =>
  isAmong ["applet", "caption", "html", "table", "td", "th", "marquee", "object", "template"] n ||
    holdsMathText n || holdsHtml n

/-- The elements that bound the scope of list items. -/
def boundsItemScope : Category := fun n =>
  boundsScope n || isAmong ["ol", "ul"] n

/-- The elements that bound the scope of paragraphs. -/
def boundsButtonScope : Category := fun n =>
  boundsScope n || isHtml "button" n

/-- The elements that bound the scope of the parts of a table. -/
def boundsTableScope : Category := fun n =>
  isAmong ["html", "table", "template"] n

/-- The elements that bound the scope of selections: all but options and their groups. -/
def boundsSelectScope : Category := fun n =>
  !isAmong ["optgroup", "option"] n

/-! ### Contexts in tables -/

/-- The elements in which row groups stand. -/
def isTableContext : Category := fun n =>
  boundsTableScope n

/-- The elements in which rows stand. -/
def isTableBodyContext : Category := fun n =>
  isAmong ["tbody", "tfoot", "thead", "template", "html"] n

/-- The elements in which cells stand. -/
def isTableRowContext : Category := fun n =>
  isAmong ["tr", "template", "html"] n

/-- The elements in which text has no place. -/
def refusesText : Category := fun n =>
  isAmong ["table", "tbody", "tfoot", "thead", "tr"] n

/-- The cells of a table. -/
def isCell : Category := fun n =>
  isAmong ["td", "th"] n

/-! ### End tags and special elements -/

/-- The elements whose end tag may be left out. -/
def mayEnd : Category := fun n =>
  isAmong ["dd", "dt", "li", "option", "optgroup", "p", "rb", "rp", "rt", "rtc"] n

/-- The elements whose end tag may be left out at the end of a template. -/
def mayEndInTemplate : Category := fun n =>
  mayEnd n ||
    isAmong ["caption", "colgroup", "tbody", "td", "tfoot", "th", "thead", "tr"] n

/-- The headings. -/
def isHeading : Category := fun n =>
  isAmong ["h1", "h2", "h3", "h4", "h5", "h6"] n

/-- The elements at which the search for an open element with the name of an end tag stops. -/
def isSpecial : Category := fun n =>
  isAmong
    ["address", "applet", "area", "article", "aside", "base", "basefont", "bgsound", "blockquote",
     "body", "br", "button", "caption", "center", "col", "colgroup", "dd", "details", "dir", "div",
     "dl", "dt", "embed", "fieldset", "figcaption", "figure", "footer", "form", "frame", "frameset",
     "h1", "h2", "h3", "h4", "h5", "h6", "head", "header", "hgroup", "hr", "html", "iframe", "img",
     "input", "isindex", "li", "link", "listing", "main", "marquee", "menu", "meta", "nav",
     "noembed", "noframes", "noscript", "object", "ol", "p", "param", "plaintext", "pre", "script",
     "section", "select", "source", "style", "summary", "table", "tbody", "td", "template",
     "textarea", "tfoot", "th", "thead", "title", "tr", "track", "ul", "wbr", "xmp"] n

end Category

end Interdoc.Html

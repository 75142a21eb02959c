import Interdoc.Html.Mode.Head

/-!
# In the body

The rules for the body.  Every start tag makes an element; many close the paragraph before them, and
an item closes the item before it.  End tags without an open element are passed over, except those
of paragraphs and line breaks, which make an element.
-/

namespace Interdoc.Html.Builder

/-! ### The end of the text -/

/-- The end of the text inside a template: all open templates are closed first. -/
def endInTemplate (b : Builder) : Builder × Next :=
  if b.isInTemplate then
    let b := b.leaveTemplate
    b.again b.properMode
  else b.done

/-- The end of the text in the body. -/
def endInBody (b : Builder) : Builder × Next :=
  if b.templateModes.isEmpty then b.done else b.endInTemplate

/-! ### Start tags -/

/-- Elements that close the open paragraph and hold blocks. -/
def blockNames : List String :=
  ["address", "article", "aside", "blockquote", "center", "details", "dialog", "dir", "div", "dl",
    "fieldset", "figcaption", "figure", "footer", "header", "hgroup", "main", "menu", "nav", "ol",
    "search", "section", "summary", "ul"]

/-- Formatting elements other than `a` and `nobr`. -/
def formattingNames : List String :=
  ["b", "big", "code", "em", "font", "i", "s", "small", "strike", "strong", "tt", "u"]

/-- Elements that bound formatting. -/
def embeddedNames : List String :=
  ["applet", "marquee", "object"]

/-- Elements without content that stand in text. -/
def voidNames : List String :=
  ["area", "br", "embed", "img", "keygen", "wbr"]

/-- Elements that stand in tables only, or before the body. -/
def misplacedNames : List String :=
  ["caption", "col", "colgroup", "frame", "head", "tbody", "td", "tfoot", "th", "thead", "tr"]

/-- The item of the same kind closed that a new item ends; the search ends at the first special
element that is no plain container. -/
def closeItem (names : List String) (b : Builder) : Builder :=
  let stops : Category := fun n =>
    Category.isAmong names n ||
      (Category.isSpecial n && !Category.isAmong ["address", "div", "p"] n)
  match (b.stack.find? (b.satisfies stops)).bind b.draft.name? with
  | some found =>
    if Category.isAmong names found then
      (b.closeImpliedExcept found.name).closeTo (.isHtml found.name)
    else b
  | none => b

/-- Whether the tag is for a field that does not show. -/
def isHidden (tag : Tag) : Bool :=
  match tag.attributes.lookup "type" with
  | some type => Text.sameLetters type.toList "hidden".toList
  | none => false

/-- An element of another vocabulary. -/
def enterForeign (space : Space) (tag : Tag) (b : Builder) : Builder :=
  if tag.isSelfClosing then (b.insertElement space tag).2 else (b.openElement space tag).2

/-- The names of attributes without the vocabulary they are taken from. -/
def plainAttributes (tag : Tag) : Tag :=
  { tag with attributes := tag.attributes.map fun (name, value) =>
      (((Text.stripPrefix? "xlink:".toList name.toList).map String.ofList).getD name, value) }

/-- A link: an open link that it stands in is closed. -/
def openLink (tag : Tag) (b : Builder) : Builder :=
  let b := match (Formatting.sinceMark b.formatting).find? fun e => e.2.name == "a" with
    | some (n, _) => ((b.closeFormatting "a").dropFormatting n).unstack n
    | none => b
  b.reopenFormatting.openFormatting tag

/-- The mode inside a selection that opens. -/
def modeOfSelect (b : Builder) : Mode :=
  if [Mode.inTable, .inCaption, .inTableBody, .inRow, .inCell].contains b.mode then
    .inSelectInTable
  else .inSelect

/-- A frameset in place of the body. -/
def replaceBody (tag : Tag) (b : Builder) : Builder :=
  match b.stack.reverse with
  | html :: body :: _ =>
    if b.allowsFrameset && b.satisfies (.isHtml "body") body then
      ({ b with draft := b.draft.detach body, stack := [html] }.insert tag).goTo .inFrameset
    else b
  | _ => b

/-- The part of a ruby annotation. -/
def insertRuby (tag : Tag) (b : Builder) : Builder :=
  let b :=
    if b.inScope .boundsScope (.isHtml "ruby") then
      if tag.name = "rb" || tag.name = "rtc" then b.closeImplied .mayEnd
      else b.closeImpliedExcept "rtc"
    else b
  b.insert tag

/-- A start tag in the body, of an element that holds blocks or bounds them. -/
def startBlock? (tag : Tag) (b : Builder) : Option (Builder × Next) :=
  if tag.name = "p" || blockNames.contains tag.name then (b.closeParagraph.insert tag).done
  else if Category.isHeading ⟨.html, tag.name⟩ then
    let b := b.closeParagraph
    ((if b.currentIs .isHeading then b.pop else b).insert tag).done
  else if tag.name = "pre" || tag.name = "listing" then
    { (b.closeParagraph.insert tag).refuseFrameset with skipsLineFeed := true }.done
  else if tag.name = "form" then
    if b.form.isSome && !b.isInTemplate then b.done
    else
      let (n, b) := b.closeParagraph.openElement .html tag
      (if b.isInTemplate then b else { b with form := some n }).done
  else if tag.name = "li" then ((b.refuseFrameset.closeItem ["li"]).closeParagraph.insert tag).done
  else if tag.name = "dd" || tag.name = "dt" then
    ((b.refuseFrameset.closeItem ["dd", "dt"]).closeParagraph.insert tag).done
  else if tag.name = "plaintext" then some (b.closeParagraph.insert tag, .plain)
  else if tag.name = "table" then
    let b := if b.isOld then b else b.closeParagraph
    ((b.insert tag).refuseFrameset.goTo .inTable).done
  else if tag.name = "hr" then (b.closeParagraph.insertVoid tag).refuseFrameset.done
  else none

/-- A start tag in the body, of an element that stands in text. -/
def startPhrase? (tag : Tag) (b : Builder) : Option (Builder × Next) :=
  if tag.name = "a" then (b.openLink tag).done
  else if formattingNames.contains tag.name then
    (b.reopenFormatting.openFormatting tag).done
  else if tag.name = "nobr" then
    let b := b.reopenFormatting
    let b :=
      if b.inScope .boundsScope (.isHtml "nobr") then
        (b.closeFormatting "nobr").reopenFormatting
      else b
    (b.openFormatting tag).done
  else if embeddedNames.contains tag.name then
    ((b.reopenFormatting.insert tag).markFormatting.refuseFrameset).done
  else if voidNames.contains tag.name then
    ((b.reopenFormatting.insertVoid tag).refuseFrameset).done
  else if tag.name = "input" then
    let b := b.reopenFormatting.insertVoid tag
    (if isHidden tag then b else b.refuseFrameset).done
  else if tag.name = "image" then
    ((b.reopenFormatting.insertVoid { tag with name := "img" }).refuseFrameset).done
  else if ["param", "source", "track"].contains tag.name then (b.insertVoid tag).done
  else if tag.name = "button" then
    let b := if b.inScope .boundsScope (.isHtml "button") then b.closeElement "button" else b
    (b.reopenFormatting.insert tag).refuseFrameset.done
  else if tag.name = "select" then
    let mode := b.modeOfSelect
    ((b.reopenFormatting.insert tag).refuseFrameset.goTo mode).done
  else if tag.name = "optgroup" || tag.name = "option" then
    let b := if b.currentIs (.isHtml "option") then b.pop else b
    (b.reopenFormatting.insert tag).done
  else if ["rb", "rtc", "rp", "rt"].contains tag.name then (b.insertRuby tag).done
  else if tag.name = "math" then (b.enterForeign .math (plainAttributes tag)).done
  else if tag.name = "svg" then (b.enterForeign .svg (plainAttributes tag)).done
  else none

/-- A start tag in the body, of an element whose content is not made of tokens. -/
def startRaw? (tag : Tag) (b : Builder) : Option (Builder × Next) :=
  if tag.name = "textarea" then
    { b.refuseFrameset with skipsLineFeed := true }.insertRaw .references tag
  else if tag.name = "xmp" then
    b.closeParagraph.reopenFormatting.refuseFrameset.insertRaw .verbatim tag
  else if tag.name = "iframe" then b.refuseFrameset.insertRaw .verbatim tag
  else if tag.name = "noembed" || tag.name = "noscript" then b.insertRaw .verbatim tag
  else none

/-- A start tag in the body. -/
def startInBody (tag : Tag) (b : Builder) : Builder × Next :=
  if tag.name = "html" || misplacedNames.contains tag.name then b.done
  else if tag.name = "body" then
    (if b.stack.length ≠ 1 && !b.isInTemplate then b.refuseFrameset else b).done
  else if tag.name = "frameset" then (b.replaceBody tag).done
  else if metadataNames.contains tag.name then b.metadata tag
  else
    match b.startBlock? tag <|> b.startPhrase? tag <|> b.startRaw? tag with
    | some result => result
    | none => (b.reopenFormatting.insert tag).done

/-! ### End tags -/

/-- A form closed by its end tag. -/
def closeForm (b : Builder) : Builder :=
  if b.isInTemplate then
    if b.inScope .boundsScope (.isHtml "form") then b.closeElement "form" else b
  else
    match b.form with
    | none => b
    | some n =>
      let b := { b with form := none }
      if b.nodeInScope n then (b.closeImplied .mayEnd).unstack n else b

/-- An end tag in the body. -/
def finishInBody (name : String) (b : Builder) : Builder × Next :=
  if name = "template" then b.closeTemplate.done
  else if name = "body" then
    (if b.inScope .boundsScope (.isHtml "body") then b.goTo .afterBody else b).done
  else if name = "html" then
    if b.inScope .boundsScope (.isHtml "body") then b.again .afterBody else b.done
  else if blockNames.contains name || ["button", "listing", "pre"].contains name then
    (if b.inScope .boundsScope (.isHtml name) then b.closeElement name else b).done
  else if name = "form" then b.closeForm.done
  else if name = "p" then
    let b := if b.inScope .boundsButtonScope (.isHtml "p") then b else b.insertImplied "p"
    b.closeParagraph.done
  else if name = "li" then
    (if b.inScope .boundsItemScope (.isHtml name) then
      (b.closeImpliedExcept name).closeTo (.isHtml name) else b).done
  else if name = "dd" || name = "dt" then
    (if b.inScope .boundsScope (.isHtml name) then
      (b.closeImpliedExcept name).closeTo (.isHtml name) else b).done
  else if Category.isHeading ⟨.html, name⟩ then
    (if b.inScope .boundsScope .isHeading then (b.closeImplied .mayEnd).closeTo .isHeading
      else b).done
  else if name = "a" || name = "nobr" || formattingNames.contains name then
    (b.closeFormatting name).done
  else if embeddedNames.contains name then
    (if b.inScope .boundsScope (.isHtml name) then (b.closeElement name).clearFormatting
      else b).done
  else if name = "br" then
    ((b.reopenFormatting.insertVoid ⟨"br", [], false⟩).refuseFrameset).done
  else (b.closeOther name).done

/-! ### The mode -/

/-- In the body. -/
def inBody (b : Builder) (token : Token) : Builder × Next :=
  match token with
  | .doctype _ => b.done
  | .comment => b.insertComment.done
  | .char c =>
    if c = '\x00' then b.done
    else
      let b := b.reopenFormatting
      ((if Text.isAsciiBlank c then b else b.refuseFrameset).insertChar c).done
  | .start tag => b.startInBody tag
  | .finish name => b.finishInBody name
  | .eof => b.endInBody

end Interdoc.Html.Builder

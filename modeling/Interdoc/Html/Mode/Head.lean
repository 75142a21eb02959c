import Interdoc.Html.Formatting

/-!
# Before the body

The rules for the document before its body: the document type, the `html` element, and the head with
its metadata.  Metadata may also stand in the body; `metadata` is shared with the rules for it.

A second `html` tag only adds attributes to the element, which nothing looks at, and is passed over.
-/

namespace Interdoc.Html.Builder

/-! ### Templates -/

/-- A template opened. -/
def openTemplate (tag : Tag) (b : Builder) : Builder :=
  let b := (b.insert tag).markFormatting.refuseFrameset
  { b with mode := .inTemplate, templateModes := .inTemplate :: b.templateModes }

/-- The innermost template closed with all in it. -/
def leaveTemplate (b : Builder) : Builder :=
  let b := (b.closeTo (.isHtml "template")).clearFormatting
  let b := { b with templateModes := b.templateModes.drop 1 }
  b.goTo b.properMode

/-- The innermost template closed by its end tag. -/
def closeTemplate (b : Builder) : Builder :=
  if b.isInTemplate then (b.closeImplied .mayEndInTemplate).leaveTemplate else b

/-! ### Metadata -/

/-- The elements that the rules for metadata are for. -/
def metadataNames : List String :=
  ["base", "basefont", "bgsound", "link", "meta", "title", "noframes", "style", "script",
    "template"]

/-- A metadata element. -/
def metadata (tag : Tag) (b : Builder) : Builder × Next :=
  if tag.name = "title" then b.insertRaw .references tag
  else if tag.name = "script" then b.insertRaw .script tag
  else if tag.name = "noframes" || tag.name = "style" then b.insertRaw .verbatim tag
  else if tag.name = "template" then (b.openTemplate tag).done
  else (b.insertVoid tag).done

/-! ### Modes -/

/-- Whether a token is blank text. -/
def isBlankToken : Token → Bool
  | .char c => Text.isAsciiBlank c
  | _ => false

/-- Whether a token is an end tag that stands for the start of what is missing before it. -/
def isEarlyEnd (name : String) : Bool :=
  ["head", "body", "html", "br"].contains name

/-- Before the document type. -/
def initial (b : Builder) (token : Token) : Builder × Next :=
  match token with
  | .doctype d => { b with isOld := d.isOld, mode := .beforeHtml }.done
  | .comment => (b.insertCommentIn Draft.document).done
  | token =>
    if isBlankToken token then b.done else { b with isOld := true }.again .beforeHtml

/-- Before the `html` element. -/
def beforeHtml (b : Builder) (token : Token) : Builder × Next :=
  let other := (b.insertImplied "html").again .beforeHead
  match token with
  | .doctype _ => b.done
  | .comment => (b.insertCommentIn Draft.document).done
  | .start tag => if tag.name = "html" then ((b.insert tag).goTo .beforeHead).done else other
  | .finish name => if isEarlyEnd name then other else b.done
  | token => if isBlankToken token then b.done else other

/-- A head opened. -/
def openHead (tag : Tag) (b : Builder) : Builder :=
  let (n, b) := b.openElement .html tag
  { b with head := some n }

/-- Before the head. -/
def beforeHead (b : Builder) (token : Token) : Builder × Next :=
  let other := (b.openHead ⟨"head", [], false⟩).again .inHead
  match token with
  | .doctype _ => b.done
  | .comment => b.insertComment.done
  | .start tag =>
    if tag.name = "html" then b.done
    else if tag.name = "head" then ((b.openHead tag).goTo .inHead).done
    else other
  | .finish name => if isEarlyEnd name then other else b.done
  | token => if isBlankToken token then b.done else other

/-- In the head.  The content of `noscript` is not read, as if scripts were run. -/
def inHead (b : Builder) (token : Token) : Builder × Next :=
  let other := b.pop.again .afterHead
  match token with
  | .doctype _ => b.done
  | .comment => b.insertComment.done
  | .char c => if Text.isAsciiBlank c then (b.insertChar c).done else other
  | .start tag =>
    if tag.name = "html" || tag.name = "head" then b.done
    else if metadataNames.contains tag.name then b.metadata tag
    else if tag.name = "noscript" then b.insertRaw .verbatim tag
    else other
  | .finish name =>
    if name = "head" then (b.pop.goTo .afterHead).done
    else if name = "template" then b.closeTemplate.done
    else if isEarlyEnd name then other
    else b.done
  | .eof => other

/-- After the head.  Metadata that comes late still goes into the head. -/
def afterHead (b : Builder) (token : Token) : Builder × Next :=
  let other := (b.insertImplied "body").again .inBody
  match token with
  | .doctype _ => b.done
  | .comment => b.insertComment.done
  | .char c => if Text.isAsciiBlank c then (b.insertChar c).done else other
  | .start tag =>
    if tag.name = "html" || tag.name = "head" then b.done
    else if tag.name = "body" then (((b.insert tag).refuseFrameset).goTo .inBody).done
    else if tag.name = "frameset" then ((b.insert tag).goTo .inFrameset).done
    else if metadataNames.contains tag.name then
      match b.head with
      | none => b.done
      | some head =>
        let (b, next) := { b with stack := head :: b.stack }.metadata tag
        (b.unstack head, next)
    else other
  | .finish name =>
    if name = "template" then b.closeTemplate.done
    else if isEarlyEnd name && name != "head" then other
    else b.done
  | .eof => other

end Interdoc.Html.Builder

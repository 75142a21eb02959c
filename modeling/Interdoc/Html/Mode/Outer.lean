import Interdoc.Html.Mode.Table

/-!
# Templates, framesets and what follows the body

The rules for templates, whose content may be any part of a document, for framesets, which take the
place of a body, and for what follows either.
-/

namespace Interdoc.Html.Builder

/-- A template whose content turns out to be for a mode. -/
def switchTemplate (mode : Mode) (b : Builder) : Builder × Next :=
  { b with templateModes := mode :: b.templateModes.drop 1 }.again mode

/-- In a template. -/
def inTemplate (b : Builder) (token : Token) : Builder × Next :=
  match token with
  | .doctype _ => b.done
  | .char _ | .comment => b.inBody token
  | .start tag =>
    if metadataNames.contains tag.name then b.metadata tag
    else if ["caption", "colgroup", "tbody", "tfoot", "thead"].contains tag.name then
      b.switchTemplate .inTable
    else if tag.name = "col" then b.switchTemplate .inColumnGroup
    else if tag.name = "tr" then b.switchTemplate .inTableBody
    else if tag.name = "td" || tag.name = "th" then b.switchTemplate .inRow
    else b.switchTemplate .inBody
  | .finish name => (if name = "template" then b.closeTemplate else b).done
  | .eof => b.endInTemplate

/-- The outermost open element. -/
def outermost (b : Builder) : Nat :=
  b.stack.getLast?.getD Draft.document

/-- After the body.  What does not belong here goes back into the body. -/
def afterBody (b : Builder) (token : Token) : Builder × Next :=
  match token with
  | .doctype _ => b.done
  | .comment => (b.insertCommentIn b.outermost).done
  | .finish name => if name = "html" then (b.goTo .afterAfterBody).done else b.again .inBody
  | .start tag => if tag.name = "html" then b.done else b.again .inBody
  | .eof => b.done
  | token => if isBlankToken token then b.inBody token else b.again .inBody

/-- In a frameset. -/
def inFrameset (b : Builder) (token : Token) : Builder × Next :=
  match token with
  | .char c => (if Text.isAsciiBlank c then b.insertChar c else b).done
  | .comment => b.insertComment.done
  | .start tag =>
    if tag.name = "frameset" then (b.insert tag).done
    else if tag.name = "frame" then (b.insertVoid tag).done
    else if tag.name = "noframes" then b.metadata tag
    else b.done
  | .finish name =>
    if name = "frameset" && b.stack.length ≠ 1 then
      let b := b.pop
      (if b.currentIs (.isHtml "frameset") then b else b.goTo .afterFrameset).done
    else b.done
  | _ => b.done

/-- After a frameset. -/
def afterFrameset (b : Builder) (token : Token) : Builder × Next :=
  match token with
  | .char c => (if Text.isAsciiBlank c then b.insertChar c else b).done
  | .comment => b.insertComment.done
  | .start tag => if tag.name = "noframes" then b.metadata tag else b.done
  | .finish name => (if name = "html" then b.goTo .afterAfterFrameset else b).done
  | _ => b.done

/-- After the document. -/
def afterAfterBody (b : Builder) (token : Token) : Builder × Next :=
  match token with
  | .doctype _ => b.done
  | .comment => (b.insertCommentIn Draft.document).done
  | .start tag => if tag.name = "html" then b.done else b.again .inBody
  | .eof => b.done
  | token => if isBlankToken token then b.inBody token else b.again .inBody

/-- After a document with a frameset. -/
def afterAfterFrameset (b : Builder) (token : Token) : Builder × Next :=
  match token with
  | .comment => (b.insertCommentIn Draft.document).done
  | .start tag => if tag.name = "noframes" then b.metadata tag else b.done
  | token => if isBlankToken token then b.inBody token else b.done

/-- A token in a mode. -/
def step (mode : Mode) (b : Builder) (token : Token) : Builder × Next :=
  match mode with
  | .initial => b.initial token
  | .beforeHtml => b.beforeHtml token
  | .beforeHead => b.beforeHead token
  | .inHead => b.inHead token
  | .afterHead => b.afterHead token
  | .inBody => b.inBody token
  | .inTable => b.inTable token
  | .inTableText => b.inTableText token
  | .inCaption => b.inCaption token
  | .inColumnGroup => b.inColumnGroup token
  | .inTableBody => b.inTableBody token
  | .inRow => b.inRow token
  | .inCell => b.inCell token
  | .inSelect => b.inSelect token
  | .inSelectInTable => b.inSelectInTable token
  | .inTemplate => b.inTemplate token
  | .afterBody => b.afterBody token
  | .inFrameset => b.inFrameset token
  | .afterFrameset => b.afterFrameset token
  | .afterAfterBody => b.afterAfterBody token
  | .afterAfterFrameset => b.afterAfterFrameset token

end Interdoc.Html.Builder

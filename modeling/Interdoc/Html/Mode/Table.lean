import Interdoc.Html.Mode.Body

/-!
# In a table

The rules for tables.  Row groups, rows and columns that the text leaves out are put in, and content
that has no place in a table is put before it.
-/

namespace Interdoc.Html.Builder

/-- A token read as in the body, its content put before the table if it has no place in it. -/
def foster (b : Builder) (token : Token) : Builder × Next :=
  let (b, next) := { b with fosters := true }.inBody token
  ({ b with fosters := false }, next)

/-- The names of the parts of a table. -/
def tablePartNames : List String :=
  ["caption", "col", "colgroup", "tbody", "td", "tfoot", "th", "thead", "tr"]

/-! ### Text -/

/-- A character in a table. -/
def charInTable (b : Builder) (token : Token) : Builder × Next :=
  if b.currentIs .refusesText then { b with tableMode := b.mode }.again .inTableText
  else b.foster token

/-- The text that has been gathered in a table put in its place: in the table if it is blank, and
before the table otherwise. -/
def placeTableText (b : Builder) : Builder :=
  let text := b.tableText.reverse
  let b := { b with tableText := [] }
  if text.all Text.isAsciiBlank then text.foldl (fun b c => b.insertChar c) b
  else text.foldl (fun b c => (b.foster (.char c)).1) b

/-- In text in a table. -/
def inTableText (b : Builder) (token : Token) : Builder × Next :=
  match token with
  | .char c =>
    (if c = '\x00' then b else { b with tableText := c :: b.tableText }).done
  | .doctype _ => b.done
  | _ =>
    let b := b.placeTableText
    b.again b.tableMode

/-! ### The table -/

/-- A start tag in a table. -/
def startInTable (tag : Tag) (b : Builder) : Builder × Next :=
  if tag.name = "caption" then
    (((b.closeInside .isTableContext).markFormatting.insert tag).goTo .inCaption).done
  else if tag.name = "colgroup" then
    (((b.closeInside .isTableContext).insert tag).goTo .inColumnGroup).done
  else if tag.name = "col" then
    ((b.closeInside .isTableContext).insertImplied "colgroup").again .inColumnGroup
  else if ["tbody", "tfoot", "thead"].contains tag.name then
    (((b.closeInside .isTableContext).insert tag).goTo .inTableBody).done
  else if ["td", "th", "tr"].contains tag.name then
    ((b.closeInside .isTableContext).insertImplied "tbody").again .inTableBody
  else if tag.name = "table" then
    if b.inScope .boundsTableScope (.isHtml "table") then
      let b := b.closeTo (.isHtml "table")
      b.again b.properMode
    else b.done
  else if ["style", "script", "template"].contains tag.name then b.metadata tag
  else if tag.name = "input" && isHidden tag then (b.insertVoid tag).done
  else if tag.name = "form" then
    if b.isInTemplate || b.form.isSome then b.done
    else
      let (n, b) := b.insertElement .html tag
      { b with form := some n }.done
  else b.foster (.start tag)

/-- In a table. -/
def inTable (b : Builder) (token : Token) : Builder × Next :=
  match token with
  | .doctype _ => b.done
  | .char _ => b.charInTable token
  | .comment => b.insertComment.done
  | .start tag => b.startInTable tag
  | .finish name =>
    if name = "table" then
      if b.inScope .boundsTableScope (.isHtml "table") then
        let b := b.closeTo (.isHtml "table")
        (b.goTo b.properMode).done
      else b.done
    else if name = "body" || name = "html" || tablePartNames.contains name then b.done
    else if name = "template" then b.closeTemplate.done
    else b.foster token
  | .eof => b.endInBody

/-! ### Captions and columns -/

/-- A caption closed. -/
def closeCaption (b : Builder) : Builder :=
  (b.closeElement "caption").clearFormatting

/-- In a caption. -/
def inCaption (b : Builder) (token : Token) : Builder × Next :=
  let isOpen := b.inScope .boundsTableScope (.isHtml "caption")
  match token with
  | .start tag =>
    if tablePartNames.contains tag.name then
      if isOpen then b.closeCaption.again .inTable else b.done
    else b.inBody token
  | .finish name =>
    if name = "caption" then (if isOpen then b.closeCaption.goTo .inTable else b).done
    else if name = "table" then
      if isOpen then b.closeCaption.again .inTable else b.done
    else if name = "body" || name = "html" || tablePartNames.contains name then b.done
    else b.inBody token
  | token => b.inBody token

/-- In a group of columns. -/
def inColumnGroup (b : Builder) (token : Token) : Builder × Next :=
  let other := if b.currentIs (.isHtml "colgroup") then b.pop.again .inTable else b.done
  match token with
  | .doctype _ => b.done
  | .comment => b.insertComment.done
  | .char c => if Text.isAsciiBlank c then (b.insertChar c).done else other
  | .start tag =>
    if tag.name = "html" then b.done
    else if tag.name = "col" then (b.insertVoid tag).done
    else if tag.name = "template" then b.metadata tag
    else other
  | .finish name =>
    if name = "colgroup" then
      (if b.currentIs (.isHtml "colgroup") then b.pop.goTo .inTable else b).done
    else if name = "col" then b.done
    else if name = "template" then b.closeTemplate.done
    else other
  | .eof => b.endInBody

/-! ### Rows and cells -/

/-- In a row group. -/
def inTableBody (b : Builder) (token : Token) : Builder × Next :=
  let leave :=
    if b.inScope .boundsTableScope (.isAmong ["table", "tbody", "tfoot"]) then
      (b.closeInside .isTableBodyContext).pop.again .inTable
    else b.done
  match token with
  | .start tag =>
    if tag.name = "tr" then
      (((b.closeInside .isTableBodyContext).insert tag).goTo .inRow).done
    else if tag.name = "td" || tag.name = "th" then
      ((b.closeInside .isTableBodyContext).insertImplied "tr").again .inRow
    else if tablePartNames.contains tag.name then leave
    else b.inTable token
  | .finish name =>
    if ["tbody", "tfoot", "thead"].contains name then
      (if b.inScope .boundsTableScope (.isHtml name) then
        (b.closeInside .isTableBodyContext).pop.goTo .inTable else b).done
    else if name = "table" then leave
    else b.inTable token
  | token => b.inTable token

/-- In a row. -/
def inRow (b : Builder) (token : Token) : Builder × Next :=
  let closed := (b.closeInside .isTableRowContext).pop
  let leave :=
    if b.inScope .boundsTableScope (.isHtml "tr") then closed.again .inTableBody else b.done
  match token with
  | .start tag =>
    if tag.name = "td" || tag.name = "th" then
      (((b.closeInside .isTableRowContext).insert tag).markFormatting.goTo .inCell).done
    else if tablePartNames.contains tag.name then leave
    else b.inTable token
  | .finish name =>
    if name = "tr" then
      (if b.inScope .boundsTableScope (.isHtml "tr") then closed.goTo .inTableBody else b).done
    else if name = "table" then leave
    else if ["tbody", "tfoot", "thead"].contains name then
      if b.inScope .boundsTableScope (.isHtml name) then leave else b.done
    else b.inTable token
  | token => b.inTable token

/-- The open cell closed. -/
def closeCell (b : Builder) : Builder :=
  ((b.closeImplied .mayEnd).closeTo .isCell).clearFormatting

/-- In a cell. -/
def inCell (b : Builder) (token : Token) : Builder × Next :=
  match token with
  | .start tag =>
    if tablePartNames.contains tag.name then
      if b.inScope .boundsTableScope .isCell then b.closeCell.again .inRow else b.done
    else b.inBody token
  | .finish name =>
    if name = "td" || name = "th" then
      (if b.inScope .boundsTableScope (.isHtml name) then
        (b.closeElement name).clearFormatting.goTo .inRow else b).done
    else if ["body", "caption", "col", "colgroup", "html"].contains name then b.done
    else if name = "table" || tablePartNames.contains name then
      if b.inScope .boundsTableScope (.isHtml name) then b.closeCell.again .inRow else b.done
    else b.inBody token
  | token => b.inBody token

/-! ### Selections -/

/-- In a selection. -/
def inSelect (b : Builder) (token : Token) : Builder × Next :=
  let isOpen := b.inScope .boundsSelectScope (.isHtml "select")
  let closed := b.closeTo (.isHtml "select")
  let closeIfCurrent (name : String) (b : Builder) : Builder :=
    if b.currentIs (.isHtml name) then b.pop else b
  match token with
  | .doctype _ => b.done
  | .char c => (if c = '\x00' then b else b.insertChar c).done
  | .comment => b.insertComment.done
  | .start tag =>
    if tag.name = "option" then ((closeIfCurrent "option" b).insert tag).done
    else if tag.name = "optgroup" then
      ((closeIfCurrent "optgroup" (closeIfCurrent "option" b)).insert tag).done
    else if tag.name = "hr" then
      ((closeIfCurrent "optgroup" (closeIfCurrent "option" b)).insertVoid tag).done
    else if tag.name = "select" then
      (if isOpen then closed.goTo closed.properMode else b).done
    else if ["input", "keygen", "textarea"].contains tag.name then
      if isOpen then closed.again closed.properMode else b.done
    else if tag.name = "script" || tag.name = "template" then b.metadata tag
    else b.done
  | .finish name =>
    if name = "optgroup" then
      let inGroup := match b.stack with
        | n :: m :: _ => b.satisfies (.isHtml "option") n && b.satisfies (.isHtml "optgroup") m
        | _ => false
      (closeIfCurrent "optgroup" (if inGroup then b.pop else b)).done
    else if name = "option" then (closeIfCurrent "option" b).done
    else if name = "select" then (if isOpen then closed.goTo closed.properMode else b).done
    else if name = "template" then b.closeTemplate.done
    else b.done
  | .eof => b.endInBody

/-- In a selection in a table. -/
def inSelectInTable (b : Builder) (token : Token) : Builder × Next :=
  let names := ["caption", "table", "tbody", "tfoot", "thead", "tr", "td", "th"]
  let closed := b.closeTo (.isHtml "select")
  match token with
  | .start tag =>
    if names.contains tag.name then closed.again closed.properMode else b.inSelect token
  | .finish name =>
    if names.contains name then
      if b.inScope .boundsTableScope (.isHtml name) then closed.again closed.properMode else b.done
    else b.inSelect token
  | token => b.inSelect token

end Interdoc.Html.Builder

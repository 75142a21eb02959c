import Interdoc.Document.Basic

/-!
# Plain text

The text of a tree without its markup.  A line break counts as a line feed and an image as its
description.  Blocks and list items are separated by line feeds, table rows too, and the cells of a
row by spaces.
-/

namespace Interdoc

namespace Inline

mutual

/-- The text of an inline. -/
def plainText : Inline → String
  | .text s => s
  | .code s => s
  | .lineBreak => "\n"
  | .image _ alt => alt.getD ""
  | .strong inlines => plainTextList inlines
  | .emphasis inlines => plainTextList inlines
  | .underline inlines => plainTextList inlines
  | .link _ inlines => plainTextList inlines

/-- The text of a sequence of inlines. -/
def plainTextList : List Inline → String
  | [] => ""
  | i :: rest => plainText i ++ plainTextList rest

end

end Inline

namespace Block

mutual

/-- The text of a block. -/
def plainText : Block → String
  | .paragraph inlines => Inline.plainTextList inlines
  | .heading _ inlines => Inline.plainTextList inlines
  | .code text _ => text
  | .rule => ""
  | .quote blocks => "\n".intercalate (plainTexts blocks)
  | .list _ items => "\n".intercalate (plainTextsOfItems items)
  | .table none rows _ => "\n".intercalate (plainTextsOfRows rows)
  | .table (some header) rows _ =>
    "\n".intercalate (" ".intercalate (plainTextsOfItems header) :: plainTextsOfRows rows)

/-- The text of each block. -/
def plainTexts : List Block → List String
  | [] => []
  | b :: rest => plainText b :: plainTexts rest

/-- The text of each item or cell. -/
def plainTextsOfItems : List (List Block) → List String
  | [] => []
  | blocks :: rest => "\n".intercalate (plainTexts blocks) :: plainTextsOfItems rest

/-- The text of each row. -/
def plainTextsOfRows : List (List (List Block)) → List String
  | [] => []
  | cells :: rest => " ".intercalate (plainTextsOfItems cells) :: plainTextsOfRows rest

end

end Block

end Interdoc

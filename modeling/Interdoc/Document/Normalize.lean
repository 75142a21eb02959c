import Interdoc.Document.Basic

/-!
# Normal form

Readers may produce adjacent pieces of text, empty pieces, and empty list items and table cells.
`Document.normalize` gives each document the one shape in which documents of different origin are
compared:

* in every sequence of inlines, at any depth, adjacent texts are one text and no text is empty;
* every list item and every table cell holds at least one block, an empty paragraph if need be.

`Inline.cons` is the step that keeps a normal sequence normal: it puts one inline in front.
-/

namespace Interdoc

namespace Inline

/-- An inline put in front of a sequence, without making an empty text or two adjacent ones. -/
def cons (i : Inline) (rest : List Inline) : List Inline :=
  match i with
  | .text s =>
    if s = "" then rest
    else match rest with
      | .text t :: rest => .text (s ++ t) :: rest
      | _ => .text s :: rest
  | _ => i :: rest

mutual

/-- The normal form of an inline. -/
def normalize : Inline → Inline
  | .strong inlines => .strong (normalizeList inlines)
  | .emphasis inlines => .emphasis (normalizeList inlines)
  | .underline inlines => .underline (normalizeList inlines)
  | .link href inlines => .link href (normalizeList inlines)
  | .text s => .text s
  | .code s => .code s
  | .lineBreak => .lineBreak
  | .image src alt => .image src alt

/-- The normal form of a sequence of inlines. -/
def normalizeList : List Inline → List Inline
  | [] => []
  | i :: rest => cons (normalize i) (normalizeList rest)

end

end Inline

namespace Block

/-- The empty paragraph. -/
def emptyParagraph : Block := .paragraph []

mutual

/-- The normal form of a block. -/
def normalize : Block → Block
  | .paragraph inlines => .paragraph (Inline.normalizeList inlines)
  | .heading level inlines => .heading level (Inline.normalizeList inlines)
  | .list ordered items => .list ordered (normalizeItems items)
  | .quote blocks => .quote (normalizeList blocks)
  | .code text language => .code text language
  | .rule => .rule
  | .table none rows alignments => .table none (normalizeRows rows) alignments
  | .table (some header) rows alignments =>
    .table (some (normalizeItems header)) (normalizeRows rows) alignments

/-- The normal form of a sequence of blocks. -/
def normalizeList : List Block → List Block
  | [] => []
  | b :: rest => normalize b :: normalizeList rest

/-- The normal form of a list of items or cells, none of which stays empty. -/
def normalizeItems : List (List Block) → List (List Block)
  | [] => []
  | [] :: rest => [emptyParagraph] :: normalizeItems rest
  | (b :: blocks) :: rest => (normalize b :: normalizeList blocks) :: normalizeItems rest

/-- The normal form of a list of rows. -/
def normalizeRows : List (List (List Block)) → List (List (List Block))
  | [] => []
  | cells :: rest => normalizeItems cells :: normalizeRows rest

end

end Block

/-- The normal form of a document. -/
def Document.normalize (d : Document) : Document :=
  ⟨Block.normalizeList d.blocks⟩

end Interdoc

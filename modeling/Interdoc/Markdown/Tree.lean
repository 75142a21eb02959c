import Interdoc.Document.Basic

/-!
# Markdown trees

What a Markdown text says, before it becomes a document and after a document has become Markdown.
The vocabulary is CommonMark with tables and strikethrough.  It is close to that of documents, with
three differences: raw HTML and struck text have no counterpart there, underlining has none here,
and the cells of a table hold spans and no blocks.

The modules `Markdown.ToDocument` and `Markdown.OfDocument` go from trees to documents and back;
`Markdown.Parser` and `Markdown.Printer` go from text to trees and back.
-/

namespace Interdoc.Markdown

/-- An element of a line of Markdown. -/
inductive Span where
  | text (s : String)
  /-- The end of a line within a paragraph. -/
  | softBreak
  | lineBreak
  | code (s : String)
  | html (s : String)
  | strong (spans : List Span)
  | emphasis (spans : List Span)
  | strike (spans : List Span)
  | link (url : String) (spans : List Span)
  /-- An image; the spans describe it. -/
  | image (url : String) (spans : List Span)
  deriving Repr, Inhabited

/-- A block of Markdown. -/
inductive Node where
  | paragraph (spans : List Span)
  | heading (level : Nat) (spans : List Span)
  /-- A list.  It is tight if no blank lines set its items apart when it is written. -/
  | list (ordered tight : Bool) (items : List (List Node))
  | quote (nodes : List Node)
  /-- Literal lines, each with the line feed that ends it.  The info string of a fenced block names
  the language in its first word. -/
  | code (info literal : String)
  | rule
  /-- A table.  The first row is the header, and every column may have an alignment. -/
  | table (alignments : List (Option Alignment)) (rows : List (List (List Span)))
  | html (literal : String)
  deriving Repr, Inhabited

end Interdoc.Markdown

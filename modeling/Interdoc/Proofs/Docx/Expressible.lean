import Interdoc.Docx.Layout
import Interdoc.Document.Normalize
import Mathlib.Data.List.Chain

/-!
# Documents that packages can express

A package has no place for everything in a document.  A document is `Expressible` if it is in normal
form and made of what has one: plain texts, headings of six levels, quotes and cells of paragraphs,
code without a language, rectangular tables, and lists whose items are paragraphs and then lists, at
most nine levels of them.  Blocks of code that follow each other would be read as one, and so would
quotes.

All of it can be decided.
-/

namespace Interdoc.Docx

open Interdoc (Inline Block Alignment)

/-! ### Texts -/

/-- The control characters of Unicode. -/
def isControl (c : Char) : Bool :=
  c < ' ' || ('\x7f' ≤ c && c ≤ '\u009f')

/-- Whether a text has no control characters. -/
def isPlainText (s : String) : Bool :=
  s.toList.all fun c => !isControl c

/-- Whether inlines are nothing but a plain text, or nothing at all. -/
def isPlainInlines : List Inline → Bool
  | [] => true
  | [.text s] => isPlainText s
  | _ => false

/-! ### Blocks -/

/-- Whether a block is a paragraph of plain text. -/
def isPlainParagraph : Block → Bool
  | .paragraph inlines => isPlainInlines inlines
  | _ => false

/-- Whether blocks are paragraphs of plain text, and at least one. -/
def arePlainParagraphs (blocks : List Block) : Bool :=
  !blocks.isEmpty && blocks.all isPlainParagraph

/-- Whether a block is a list of at most so many levels: there is an item, and each item is a
paragraph and then first paragraphs and after them lists. -/
def isPlainList : (levels : Nat) → Block → Bool
  | levels + 1, .list _ items =>
    !items.isEmpty && items.all fun blocks =>
      blocks.head?.any isPlainParagraph &&
        (blocks.dropWhile isPlainParagraph).all (isPlainList levels)
  | _, _ => false

/-- Whether a text is code that a package keeps: its only control characters are line feeds, and it
does not end in one. -/
def isPlainCode (text : String) : Bool :=
  (text.toList.all fun c => c == '\n' || !isControl c) && text.toList.getLast? != some '\n'

/-- Whether rows have the same number of cells, and at least one. -/
def isRectangular (columns : Nat) (rows : List (List (List Block))) : Bool :=
  0 < columns && rows.all fun cells => cells.length == columns && cells.all arePlainParagraphs

/-- Whether a table is rectangular, with an alignment for each column or none at all. -/
def isPlainTable (header : Option (List (List Block))) (rows : List (List (List Block)))
    (alignments : Option (List Alignment)) : Bool :=
  match header.toList ++ rows with
  | [] => false
  | first :: rest =>
    isRectangular first.length (first :: rest) && alignments.all fun as => as.length == first.length

/-- Whether a block keeps its form in a package. -/
def isPlainBlock : Block → Bool
  | .paragraph inlines => isPlainInlines inlines
  | .heading level inlines => 1 ≤ level && level ≤ 6 && isPlainInlines inlines
  | .list ordered items => isPlainList (deepestLevel + 1) (.list ordered items)
  | .quote blocks => arePlainParagraphs blocks
  | .code text language => language.isNone && isPlainCode text
  | .rule => true
  | .table header rows alignments => isPlainTable header rows alignments

/-- Whether two blocks stay apart if one follows the other. -/
def stayApart : Block → Block → Bool
  | .code _ _, .code _ _ => false
  | .quote _, .quote _ => false
  | _, _ => true

/-- A document that a package can express. -/
structure Expressible (d : Document) : Prop where
  normal : d.normalize = d
  blocks : ∀ b ∈ d.blocks, isPlainBlock b = true
  apart : d.blocks.IsChain fun a b => stayApart a b = true

instance (d : Document) : Decidable (Expressible d) :=
  decidable_of_iff (d.normalize = d ∧ (∀ b ∈ d.blocks, isPlainBlock b = true) ∧
      d.blocks.IsChain fun a b => stayApart a b = true)
    ⟨fun h => ⟨h.1, h.2.1, h.2.2⟩, fun h => ⟨h.normal, h.blocks, h.apart⟩⟩

example : ¬ Expressible ⟨[.code "a" none, .code "b" none]⟩ := by decide

/-! ### Parts -/

theorem exists_of_isPlainParagraph {b : Block} (h : isPlainParagraph b = true) :
    ∃ xs, b = .paragraph xs ∧ isPlainInlines xs = true := by
  cases b with
  | paragraph xs => exact ⟨xs, rfl, h⟩
  | heading | list | quote | code | rule | table => cases h

/-- The items of a list that is at most so many levels deep: paragraphs, and then lists. -/
theorem exists_of_isPlainList {levels : Nat} {b : Block} (h : isPlainList (levels + 1) b = true) :
    ∃ ordered items, b = .list ordered items ∧ items ≠ [] ∧
      ∀ blocks ∈ items, ∃ xs ps ls, blocks = .paragraph xs :: (ps ++ ls) ∧
        isPlainInlines xs = true ∧ (∀ p ∈ ps, isPlainParagraph p = true) ∧
        ∀ l ∈ ls, isPlainList levels l = true := by
  cases b with
  | list ordered items =>
    rw [isPlainList, Bool.and_eq_true, List.all_eq_true] at h
    refine ⟨ordered, items, rfl, by simpa using h.1, fun blocks hblocks => ?_⟩
    have hitem := h.2 blocks hblocks
    rw [Bool.and_eq_true, List.all_eq_true] at hitem
    obtain _ | ⟨b, rest⟩ := blocks
    · cases hitem.1
    have hplain : isPlainParagraph b = true := hitem.1
    obtain ⟨xs, rfl, hxs⟩ := exists_of_isPlainParagraph hplain
    refine ⟨xs, rest.takeWhile isPlainParagraph, rest.dropWhile isPlainParagraph,
      by rw [List.takeWhile_append_dropWhile], hxs, List.all_eq_true.mp List.all_takeWhile,
      fun l hl => hitem.2 l ?_⟩
    rwa [List.dropWhile_cons_of_pos hplain]
  | paragraph | heading | quote | code | rule | table => cases h

end Interdoc.Docx

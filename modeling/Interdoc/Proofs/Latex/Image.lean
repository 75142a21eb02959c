import Interdoc.Proofs.Latex.Table

/-!
# What printing keeps

`Latex.image` is what becomes of a block that is printed and read again, and `parse_print` says so
for whole documents: paragraphs are tidied and vanish if nothing of them is left, headings have one
of five levels, an item without blocks holds an empty paragraph, cells hold one paragraph each and
alignments reach to the widest row.

Only code is printed as it is, so the theorem asks that the code of the document can be printed
(`Printable`): that it has neither carriage returns nor markers in it, and a language that an option
can name.

The blocks inside lists and quotes are printed and read in the same way, so the proof is one
induction over the document (`prints_block`).
-/

namespace Interdoc.Latex

open Inline (tidy)

mutual

/-- The blocks that a printed block is read as. -/
def image : Block → List Block
  | .paragraph inlines => if tidy inlines = [] then [] else [.paragraph (tidy inlines)]
  | .heading level inlines => [.heading (headingLevel level) (tidy inlines)]
  | .list ordered items => [.list ordered (imageItems items)]
  | .quote blocks => [.quote (imageList blocks)]
  | .code text language => [.code text language]
  | .rule => [.rule]
  | .table header rows alignments =>
    [.table (header.map imageRow) (rows.map imageRow)
      (some (imageAlignments (alignments.getD []) (columnCount header rows)))]

/-- The blocks that a printed sequence of blocks is read as. -/
def imageList : List Block → List Block
  | [] => []
  | b :: rest => image b ++ imageList rest

/-- The items that printed items are read as, none of which is empty. -/
def imageItems : List (List Block) → List (List Block)
  | [] => []
  | blocks :: rest =>
    (if imageList blocks = [] then [Block.emptyParagraph] else imageList blocks) ::
      imageItems rest

end

mutual

/-- The code in a block can be printed; that in the cells of a table is printed as text. -/
def Printable : Block → Prop
  | .code text language => IsCode text.toList ∧ ∀ l ∈ language, IsLanguage l.toList
  | .list _ items => PrintableItems items
  | .quote blocks => PrintableList blocks
  | .paragraph _ | .heading _ _ | .rule | .table _ _ _ => True

/-- The code in each of a sequence of blocks can be printed. -/
def PrintableList : List Block → Prop
  | [] => True
  | b :: rest => Printable b ∧ PrintableList rest

/-- The code in each item can be printed. -/
def PrintableItems : List (List Block) → Prop
  | [] => True
  | blocks :: rest => PrintableList blocks ∧ PrintableItems rest

end

/-! ### Printed blocks are read -/

mutual

/-- **A printed block is read as its image.** -/
theorem prints_block : ∀ b : Block, Printable b → Prints (printBlock b) (image b)
  | .paragraph xs, _ => prints_paragraph xs
  | .heading level xs, _ => prints_heading level xs
  | .list ordered items, h => prints_list ordered (printsItems items h)
  | .quote blocks, h => prints_quote (printsEach blocks h)
  | .code _ none, h => prints_verbatim h.1
  | .code _ (some language), h => prints_listing h.1 (h.2 language rfl)
  | .rule, _ => prints_rule
  | .table header rows alignments, _ => prints_table header rows alignments

theorem printsEach : ∀ blocks : List Block,
    PrintableList blocks → PrintsEach (printEach blocks) (imageList blocks)
  | [], _ => .nil
  | b :: rest, h => .cons (prints_block b h.1) (printsEach rest h.2)

theorem printsItems : ∀ items : List (List Block),
    PrintableItems items → PrintsItems (printItems items) (imageItems items)
  | [], _ => .nil
  | blocks :: rest, h => .cons (printsEach blocks h.1) (printsItems rest h.2)

end

/-! ### Whole sources -/

theorem Prints.noReturn {source : List Char} {blocks : List Block} (h : Prints source blocks) :
    '\r' ∉ source := by
  intro hr
  obtain ⟨line, hl, hr⟩ := Text.exists_mem_splitOn (show '\r' ≠ '\n' by decide) hr
  exact h.nested.noReturn line hl hr

theorem parse_eq (source : List Char) : parse source = ⟨readLines (Text.lines source)⟩ := rfl

/-- A text that does not end with a line feed is read as its lines. -/
theorem parse_of_reads {source : List Char} {blocks : List Block}
    (h : Reads (Text.splitOn '\n' source) blocks) (hreturn : '\r' ∉ source)
    (hlast : source.getLast? ≠ some '\n') : parse source = ⟨blocks⟩ := by
  rw [parse_eq]
  cases hl : source.getLast? with
  | none =>
    rw [List.getLast?_eq_none_iff] at hl
    subst hl
    have hempty : readLines (Text.splitOn '\n' []) = [] :=
      (readLines_blank rfl []).trans readLines_nil
    rw [← h.readLines, hempty]
    exact congrArg Document.mk readLines_nil
  | some c =>
    -- a text that ends with a line feed would have a line less than pieces
    have hc : c ≠ '\n' := by
      rintro rfl
      exact hlast hl
    rw [Text.lines_eq_splitOn hreturn hc hl, h.readLines]

/-- A printed text is read without anything around it. -/
theorem Prints.parse {source : List Char} {blocks : List Block} (h : Prints source blocks) :
    parse source = ⟨blocks⟩ :=
  parse_of_reads h.reads h.noReturn h.last

theorem readLines_preamble {line : Line} (hc : isComment line = false)
    (hp : isPreamble (significant line) = true) (lines : List Line) :
    readLines (line :: lines) = readLines lines := by
  apply readLines_gap
  rw [segments, hc, hp, if_neg (by decide), Bool.or_true, if_pos rfl]

/-- The lines of an article up to its body. -/
def preambleLines : List Line :=
  ["\\documentclass\x7barticle\x7d".toList, "\\usepackage\x7bhyperref\x7d".toList,
    "\\usepackage\x7bgraphicx\x7d".toList, "\\usepackage\x7blistings\x7d".toList]

theorem readLines_preambleLines (lines : List Line) :
    readLines (preambleLines ++ lines) = readLines lines := by
  rw [preambleLines, List.cons_append, List.cons_append, List.cons_append, List.cons_append,
    readLines_preamble (by decide) (by decide), readLines_preamble (by decide) (by decide),
    readLines_preamble (by decide) (by decide), readLines_preamble (by decide) (by decide),
    List.nil_append]

/-- The body of an article is read like a source of its own. -/
theorem readLines_document {body : List Line} (h : Nested true body) :
    readLines (openingMarker "document".toList :: (body ++ [closingMarker "document".toList]))
      = readLines body := by
  -- the environment of the name is made of its body alone
  have he : environmentBlocks ⟨"document".toList, [], body, []⟩ = parseBlocks body := by
    rw [environmentBlocks]
    rfl
  have hr : Reads (openingMarker "document".toList :: (body ++ [closingMarker "document".toList]))
      (Block.normalizeList (environmentBlocks ⟨"document".toList, [], body, []⟩)) := by
    apply reads_environment
    intro rest
    rw [List.cons_append, List.append_assoc]
    have hname : IsName "document".toList := by decide
    exact segments_environment hname isArgument_nil h (.inl (by decide)) rest
  rw [hr.readLines, he]
  rfl

theorem lines_article {source : List Char} (h : '\r' ∉ source) :
    Text.lines (articleHead ++ source ++ articleTail)
      = preambleLines ++ openingMarker "document".toList ::
          ([] :: (Text.splitOn '\n' source ++ [[]]) ++ [closingMarker "document".toList]) := by
  -- in the article the body stands between blank lines
  have hhead : articleHead
      = Text.join ['\n'] (preambleLines ++ [openingMarker "document".toList, []]) ++ ['\n'] := by
    decide
  have htail : articleTail = '\n' :: '\n' :: (closingMarker "document".toList ++ ['\n']) := by
    decide
  have htext : articleHead ++ source ++ articleTail
      = Text.join ['\n'] (preambleLines ++ [openingMarker "document".toList, []]) ++ '\n' ::
          (source ++ '\n' :: '\n' :: closingMarker "document".toList) ++ ['\n'] := by
    rw [hhead, htail]
    simp only [List.append_assoc, List.cons_append, List.nil_append]
  have hreturn : '\r' ∉ Text.join ['\n'] (preambleLines ++ [openingMarker "document".toList, []]) ++
      '\n' :: (source ++ '\n' :: '\n' :: closingMarker "document".toList) := by
    rw [List.mem_append, List.mem_cons, List.mem_append]
    rintro (hr | hr | hr | hr)
    · exact absurd hr (by decide)
    · exact absurd hr (by decide)
    · exact h hr
    · exact absurd hr (by decide)
  have hlines : Text.splitOn '\n'
      (Text.join ['\n'] (preambleLines ++ [openingMarker "document".toList, []]))
        = preambleLines ++ [openingMarker "document".toList, []] := by
    decide
  have hclose : Text.splitOn '\n' (closingMarker "document".toList)
      = [closingMarker "document".toList] := by
    decide
  rw [htext, Text.lines_append_lineFeed hreturn, Text.splitOn_append_sep, hlines,
    Text.splitOn_append_sep, Text.splitOn_cons_sep, hclose]
  simp only [List.append_assoc, List.cons_append, List.nil_append]

/-- A printed text is read inside an article. -/
theorem Prints.parse_article {source : List Char} {blocks : List Block}
    (h : Prints source blocks) : Latex.parse (articleHead ++ source ++ articleTail) = ⟨blocks⟩ := by
  have hn : Nested true ([] :: (Text.splitOn '\n' source ++ [[]])) :=
    .line plain_nil (fun h => absurd h (by decide))
      (h.nested.of_false.append (.line plain_nil (fun h => absurd h (by decide)) .nil))
  rw [parse_eq, lines_article h.noReturn, readLines_preambleLines, readLines_document hn,
    readLines_blank rfl, h.reads _ (fresh_blank []), readLines_blank rfl, readLines_nil,
    List.append_nil]

/-- **A printed document is read as its image**, with or without an article around it. -/
theorem parse_print (options : Options) {d : Document} (h : PrintableList d.blocks) :
    parse (print options d) = ⟨imageList d.blocks⟩ := by
  have hp := prints_joinNonempty (printsEach d.blocks h)
  rw [print]
  split
  · exact hp.parse_article
  · exact hp.parse

end Interdoc.Latex

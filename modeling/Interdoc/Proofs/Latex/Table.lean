import Interdoc.Proofs.Latex.PrintedBlocks
import Mathlib.Data.List.Forall2

/-!
# Printed tables

A printed cell is inert, so a row is inert texts with ampersands between them (`RowText`), and no
scanner stops inside it but the one that looks for ampersands (`cellTexts_rowText`).  Each line of
the body of a tabular is read behind a space, which keeps a row from being taken for the option of
the `\\` before it; so each line that is a row or a rule is a piece of its own
(`tablePieces_lines`), and the pieces of the body are the rows and rules that were printed
(`tablePieces_table`).

A cell comes back as one paragraph with the inlines of its blocks in a row (`cellInlines`), tidied;
a row without cells as one with an empty cell; and the alignments reach to the widest row
(`prints_table`).
-/

namespace Interdoc.Latex

open Inline (tidy)

/-! ### Cells -/

/-- The inlines that a block of a cell is printed as. -/
def cellBlockInlines : Block → List Inline
  | .paragraph inlines => inlines
  | .heading _ inlines => inlines
  | b => [.text b.plainText]

/-- The inlines that a cell is printed as: those of its blocks with spaces between them, without the
blocks that print nothing. -/
def cellInlines : List Block → List Inline
  | [] => []
  | b :: rest =>
    if printInlines (cellBlockInlines b) = [] then cellInlines rest
    else if printInlines (cellInlines rest) = [] then cellBlockInlines b
    else cellBlockInlines b ++ .text " " :: cellInlines rest

/-- The cells that a row is read back with. -/
def imageRow (cells : List (List Block)) : List (List Block) :=
  if cells = [] then [[Block.emptyParagraph]]
  else cells.map fun blocks => [.paragraph (tidy (cellInlines blocks))]

theorem printCellBlock_eq (b : Block) : printCellBlock b = printInlines (cellBlockInlines b) := by
  cases b with
  | paragraph _ => rfl
  | heading _ _ => rfl
  | _ => exact (List.append_nil _).symm

theorem printCell_eq (blocks : List Block) :
    printCell blocks = printInlines (cellInlines blocks) := by
  induction blocks with
  | nil => rfl
  | cons b rest ih =>
    have hcons : printCell (b :: rest)
        = joinNonempty [' '] (printInlines (cellBlockInlines b) :: rest.map printCellBlock) := by
      rw [printCell, List.map_cons, printCellBlock_eq]
    rw [printCell] at ih
    rw [hcons, cellInlines]
    -- a block that prints nothing is left out by both
    split
    · next he => rw [he, joinNonempty_nil_cons, ih]
    · next he =>
      rw [joinNonempty_cons _ he, ih]
      split
      · rfl
      · rw [printInlines_append, printInlines_cons, List.append_assoc]
        rfl

/-! ### Rows -/

/-- Inert texts with ampersands between them. -/
inductive RowText : List Char → Prop where
  | nil : RowText []
  | inert {s t : List Char} : Inert s → RowText t → RowText (s ++ t)
  | separator {t : List Char} : RowText t → RowText ('&' :: t)

/-- The text of a row, without the command that ends it. -/
def rowText (cells : List (List Block)) : List Char :=
  Text.join " & ".toList (cells.map printCell)

theorem inert_printCell (blocks : List Block) : Inert (printCell blocks) := by
  rw [printCell_eq]
  exact inert_printInlines _

theorem rowText_cons (blocks : List Block) {cells : List (List Block)} (h : cells ≠ []) :
    rowText (blocks :: cells) = printCell blocks ++ ' ' :: '&' :: ' ' :: rowText cells := by
  have hne : cells.map printCell ≠ [] := by simpa using h
  rw [rowText, List.map_cons, Text.join_cons _ hne, List.append_assoc]
  rfl

theorem rowText_singleton (blocks : List Block) : rowText [blocks] = printCell blocks := rfl

theorem isRowText (cells : List (List Block)) : RowText (rowText cells) := by
  have hspace {t : List Char} (h : RowText t) : RowText (' ' :: t) :=
    .inert (s := [' ']) (.char (by decide) .nil) h
  induction cells with
  | nil => exact .nil
  | cons blocks cells ih =>
    by_cases hne : cells = []
    · rw [hne, rowText_singleton, ← List.append_nil (printCell blocks)]
      exact .inert (inert_printCell blocks) .nil
    · rw [rowText_cons blocks hne]
      exact .inert (inert_printCell blocks) (hspace (.separator (hspace ih)))

theorem Inert.trimLeft {s : List Char} (h : Inert s) : Inert (Text.trimLeft s) := by
  induction h with
  | nil => exact .nil
  | @char c s hc hs ih =>
    by_cases hb : Text.isBlankChar c = true
    · rwa [Text.trimLeft, List.dropWhile_cons_of_pos hb]
    · rw [Text.trimLeft, List.dropWhile_cons_of_neg hb]
      exact .char hc hs
  | escape hc hs _ =>
    rw [Text.trimLeft_eq_self (Text.solidHead_cons.mpr (by decide))]
    exact .escape hc hs
  | group hb hs _ _ =>
    rw [Text.trimLeft_eq_self (Text.solidHead_cons.mpr (by decide))]
    exact .group hb hs

theorem RowText.append {s t : List Char} (hs : RowText s) (ht : RowText t) : RowText (s ++ t) := by
  induction hs with
  | nil => exact ht
  | inert hi _ ih =>
    rw [List.append_assoc]
    exact .inert hi ih
  | separator _ ih => exact .separator ih

theorem RowText.trimLeft {s : List Char} (h : RowText s) : RowText (Text.trimLeft s) := by
  induction h with
  | nil => exact .nil
  | @inert s t hs ht ih =>
    -- the trimming goes on behind an inert text of blanks
    by_cases he : Text.trimLeft s = []
    · rwa [Text.trimLeft_append_of_isBlank (Text.trimLeft_eq_nil_iff.mp he)]
    · rw [Text.trimLeft_append he]
      exact .inert hs.trimLeft ht
  | separator ht _ =>
    rw [Text.trimLeft_eq_self (Text.solidHead_cons.mpr (by decide))]
    exact .separator ht

theorem RowText.not_mem {s : List Char} (h : RowText s) : '\n' ∉ s ∧ '\r' ∉ s := by
  induction h with
  | nil => simp
  | inert hs _ ih => simp [hs.not_mem, ih]
  | separator _ ih => simp [ih]

theorem RowText.unmarked_append {s : List Char} (h : RowText s) {t : List Char}
    (ht : Unmarked t) : Unmarked (s ++ t) := by
  induction h with
  | nil => exact ht
  | inert hs _ ih =>
    rw [List.append_assoc]
    exact hs.unmarked_append ih
  | separator _ ih => rwa [List.cons_append, unmarked_cons_of_ne (by decide)]

theorem RowText.stripComment_append {s : List Char} (h : RowText s) (t : List Char) :
    stripComment (s ++ t) = s ++ stripComment t := by
  induction h with
  | nil => rfl
  | inert hs _ ih => rw [List.append_assoc, Latex.stripComment_append hs, ih, List.append_assoc]
  | separator _ ih =>
    rw [List.cons_append, stripComment_char (by decide) (by decide), ih, List.cons_append]

theorem RowText.tablePieces_append {s : List Char} (h : RowText s) (row t : List Char) :
    tablePieces row (s ++ t) = tablePieces (row ++ s) t := by
  induction h generalizing row with
  | nil => rw [List.nil_append, List.append_nil]
  | inert hs _ ih => rw [List.append_assoc, Latex.tablePieces_append hs, ih, List.append_assoc]
  | separator _ ih =>
    rw [List.cons_append, tablePieces_char (by decide), ih, List.append_assoc,
      List.singleton_append]

/-! ### Lines of a body -/

/-- The text of a row in the body of a printed table. -/
def rowPiece (cells : List (List Block)) : List Char :=
  ' ' :: Text.trimLeft (rowText cells)

theorem RowText.plain {s : List Char} (h : RowText s) :
    Plain (s ++ ['\\', '\\']) ∧ '\n' ∉ s ++ ['\\', '\\'] := by
  refine ⟨⟨h.unmarked_append (by decide), ?_⟩, ?_⟩ <;> rw [List.mem_append, not_or]
  · exact ⟨h.not_mem.2, by decide⟩
  · exact ⟨h.not_mem.1, by decide⟩

/-- A line that is a row as part of the body. -/
theorem RowText.tabularLine {s : List Char} (h : RowText s) :
    Latex.tabularLine (s ++ ['\\', '\\']) = ' ' :: (Text.trimLeft s ++ ['\\', '\\']) := by
  have ht : Text.trim (s ++ ['\\', '\\']) = Text.trimLeft s ++ ['\\', '\\'] := by
    rw [Text.trim, Text.trimLeft_append_of_solidHead (by decide), Text.trimRight_eq_self]
    exact (Text.solidLast_append (by decide)).mpr (by decide)
  have hs : stripComment (Text.trimLeft s ++ ['\\', '\\']) = Text.trimLeft s ++ ['\\', '\\'] :=
    h.trimLeft.stripComment_append _
  have hc : isComment (s ++ ['\\', '\\']) = false := by
    rw [isComment, ht, ← Bool.not_eq_true, Text.startsWith_iff]
    -- a percent sign at the beginning would have been stripped
    rintro ⟨t, hp⟩
    rw [← hp] at hs
    exact absurd hs (by simp [stripComment])
  rw [Latex.tabularLine, hc, if_neg (by decide), ht, hs]

/-- The rest of a body begins with the space before a line. -/
def SpaceFirst (s : List Char) : Prop :=
  s = [] ∨ ∃ t, s = ' ' :: t

/-- A line of a body is one piece of the table, whatever lines come after it. -/
structure IsPieceLine (line : Line) (piece : TablePiece) : Prop where
  spaceFirst : ∃ t, tabularLine line = ' ' :: t
  tablePieces_append {rest : List Char} : SpaceFirst rest →
    tablePieces [] (tabularLine line ++ rest) = piece :: tablePieces [] rest

/-- **Lines that are pieces** make up the table. -/
theorem tablePieces_lines {lines : List Line} {pieces : List TablePiece}
    (h : List.Forall₂ IsPieceLine lines pieces) :
    tablePieces [] (lines.flatMap tabularLine) = pieces := by
  have hspace {lines : List Line} {pieces : List TablePiece}
      (h : List.Forall₂ IsPieceLine lines pieces) : SpaceFirst (lines.flatMap tabularLine) := by
    cases h with
    | nil => exact .inl rfl
    | cons hline _ =>
      obtain ⟨t, ht⟩ := hline.spaceFirst
      rw [List.flatMap_cons, ht]
      exact .inr ⟨_, List.cons_append⟩
  induction h with
  | nil =>
    rw [List.flatMap_nil, tablePieces]
    rfl
  | cons hline hlines ih => rw [List.flatMap_cons, hline.tablePieces_append (hspace hlines), ih]

/-- **A line that is a row** is a row of the table. -/
theorem RowText.isPieceLine {s : List Char} (hs : RowText s) :
    IsPieceLine (s ++ ['\\', '\\']) (.row (' ' :: Text.trimLeft s)) := by
  refine ⟨⟨_, hs.tabularLine⟩, fun {rest} h => ?_⟩
  -- the space before the next line keeps it from being the option of the `\\`
  have hend (row : List Char) :
      tablePieces row ('\\' :: '\\' :: rest) = .row row :: tablePieces [] rest := by
    have hskip : skipBracketed rest = rest := by
      rcases h with rfl | ⟨t, rfl⟩ <;> rfl
    rw [tablePieces.eq_def]
    simp only [↓reduceIte, hskip]
  rw [hs.tabularLine, List.cons_append, List.append_assoc, tablePieces_char (by decide),
    hs.trimLeft.tablePieces_append]
  exact hend _

theorem tablePieces_rule {c : Char} {s rest : List Char} (h : c ≠ '\\')
    (hr : rule? (c :: s) = some rest) (row : List Char) :
    tablePieces row ('\\' :: c :: s) = pendingRow row ++ .rule :: tablePieces [] rest := by
  rw [tablePieces.eq_def]
  simp only [↓reduceIte, if_neg h]
  split
  · next hs =>
    rw [hr] at hs
    rw [Option.some.inj hs]
  · next hs => rw [hr] at hs; exact absurd hs (by simp)

/-! ### Rules -/

/-- The argument of a rule command, if it has one. -/
def ruleArgument : Option (List Char) → List Char
  | none => []
  | some argument => '\x7b' :: (argument ++ ['\x7d'])

/-- A line that is a rule command. -/
def ruleLine (name : List Char) (argument : Option (List Char)) : Line :=
  '\\' :: (name ++ ruleArgument argument)

section

variable {name : List Char} {argument : Option (List Char)}

/-- The names of rules are words, and no marker begins with one. -/
theorem ruleNames_spec (h : name ∈ ruleNames) :
    (∀ c ∈ name, c.isAlpha = true ∧ isInertChar c = true) ∧ Text.SolidLast name ∧
      5 ≤ name.length ∧ ¬ "begin".toList <+: name ∧ ¬ "end".toList <+: name := by
  have hnames : ∀ name ∈ ruleNames, (∀ c ∈ name, c.isAlpha = true ∧ isInertChar c = true) ∧
      Text.SolidLast name ∧ 5 ≤ name.length ∧ ¬ "begin".toList <+: name ∧
        ¬ "end".toList <+: name := by
    decide
  exact hnames name h

theorem exists_cons_of_mem_ruleNames (h : name ∈ ruleNames) :
    ∃ c s, name = c :: s ∧ isInertChar c = true := by
  obtain ⟨hword, -, hlength, -⟩ := ruleNames_spec h
  cases name with
  | nil => exact absurd hlength (by decide)
  | cons c s => exact ⟨c, s, rfl, (hword c List.mem_cons_self).2⟩

theorem inert_ruleArgument (h : ∀ a ∈ argument, Inert a) : Inert (ruleArgument argument) := by
  cases argument with
  | none => exact .nil
  | some a => exact .group (h a rfl) .nil

variable (hn : name ∈ ruleNames) (ha : ∀ a ∈ argument, Inert a)

include hn ha

/-- **The name of a rule ends** where its argument or the next line begins. -/
theorem rule?_append {rest : List Char} (hr : SpaceFirst rest) :
    rule? (name ++ ruleArgument argument ++ rest) = some rest := by
  have halpha : ∀ c ∈ name, c.isAlpha = true := fun c hc => ((ruleNames_spec hn).1 c hc).1
  have hname : ruleNames.contains name = true := List.contains_iff_mem.mpr hn
  have hread {behind : List Char} (hb : behind.takeWhile Char.isAlpha = []) :
      rule? (name ++ behind) = ((braced? (behind.dropWhile Char.isAlpha)).map Prod.snd).or
        (some (behind.dropWhile Char.isAlpha)) := by
    rw [rule?, List.takeWhile_append_of_pos halpha, List.dropWhile_append_of_pos halpha, hb,
      List.append_nil, if_pos hname]
    dsimp only
    cases braced? (behind.dropWhile Char.isAlpha) with
    | none => rfl
    | some group => rfl
  rw [List.append_assoc]
  -- without an argument the name ends at the space, and with one at the brace
  cases argument with
  | none => rcases hr with rfl | ⟨t, rfl⟩ <;> exact hread rfl
  | some a =>
    have hgroup := braced?_append (ha a rfl) rest
    have hargument : ruleArgument (some a) ++ rest = '\x7b' :: (a ++ '\x7d' :: rest) :=
      congrArg ('\x7b' :: ·) (List.append_assoc a ['\x7d'] rest)
    rw [hargument, hread rfl, List.dropWhile_cons_of_neg (by decide), hgroup, Option.map_some,
      Option.some_or]

/-- Behind the backslash a rule means nothing to any other scanner. -/
theorem inert_rule : Inert (name ++ ruleArgument argument) :=
  (Inert.of_forall fun c hc => ((ruleNames_spec hn).1 c hc).2).append (inert_ruleArgument ha)

theorem unmarked_ruleLine : Unmarked (ruleLine name argument) := by
  obtain ⟨-, -, hlength, hbegin, hend⟩ := ruleNames_spec hn
  -- a word that the line begins with is not longer than the name
  have hword {word : List Char} (hw : word.length ≤ 5)
      (h : '\\' :: (word ++ ['\x7b']) <+: ruleLine name argument) : word <+: name := by
    have hlong := (List.prefix_append word ['\x7b']).trans (List.cons_prefix_cons.mp h).2
    exact List.prefix_of_prefix_length_le hlong (List.prefix_append _ _) (hw.trans hlength)
  have hinert : Unmarked (name ++ ruleArgument argument) := (inert_rule hn ha).unmarked
  rw [Unmarked, ruleLine, List.infix_cons_iff, List.infix_cons_iff, not_or, not_or]
  exact ⟨⟨fun h => hbegin (hword (by decide) h), hinert.1⟩,
    fun h => hend (hword (by decide) h), hinert.2⟩

theorem plain_ruleLine : Plain (ruleLine name argument) ∧ '\n' ∉ ruleLine name argument := by
  obtain ⟨hfeed, hreturn⟩ := (inert_rule hn ha).not_mem
  refine ⟨⟨unmarked_ruleLine hn ha, ?_⟩, ?_⟩ <;> rw [ruleLine, List.mem_cons, not_or]
  · exact ⟨by decide, hreturn⟩
  · exact ⟨by decide, hfeed⟩

theorem stripComment_ruleLine :
    stripComment (ruleLine name argument) = ruleLine name argument := by
  obtain ⟨c, s, rfl, hc⟩ := exists_cons_of_mem_ruleNames hn
  obtain ⟨hbackslash, -, -, -, hpercent, -⟩ := ne_of_isInertChar hc
  have hinert := stripComment_eq_self (inert_rule hn ha)
  rw [List.cons_append, stripComment_char hbackslash hpercent] at hinert
  rw [ruleLine, List.cons_append, stripComment, List.cons_injective hinert]

theorem trim_ruleLine : Text.trim (ruleLine name argument) = ruleLine name argument := by
  refine Text.trim_eq_self (Text.solidHead_cons.mpr (by decide)) ?_
  have hname : Text.SolidLast ('\\' :: name) := by
    obtain ⟨c, s, rfl, -⟩ := exists_cons_of_mem_ruleNames hn
    exact (Text.solidLast_append (s := ['\\']) (List.cons_ne_nil c s)).mpr (ruleNames_spec hn).2.1
  cases argument with
  | none => rwa [ruleLine, ruleArgument, List.append_nil]
  | some a =>
    rw [ruleLine, ruleArgument, ← List.cons_append, ← List.cons_append, ← List.append_assoc,
      Text.solidLast_concat]
    decide

theorem tabularLine_ruleLine :
    tabularLine (ruleLine name argument) = ' ' :: ruleLine name argument := by
  have hcomment : isComment (ruleLine name argument) = false := by
    rw [isComment, trim_ruleLine hn ha]
    rfl
  rw [tabularLine, hcomment, if_neg (by decide), trim_ruleLine hn ha, stripComment_ruleLine hn ha]

/-- **A line that is a rule** is a rule of the table. -/
theorem isPieceLine_ruleLine : IsPieceLine (ruleLine name argument) .rule := by
  refine ⟨⟨_, tabularLine_ruleLine hn ha⟩, fun {rest} h => ?_⟩
  have hrule := rule?_append hn ha h
  rw [tabularLine_ruleLine hn ha, ruleLine, List.cons_append, List.cons_append,
    tablePieces_char (by decide)]
  obtain ⟨c, s, rfl, hc⟩ := exists_cons_of_mem_ruleNames hn
  exact tablePieces_rule (ne_of_isInertChar hc).1 hrule _

end

/-! ### The cells of a row -/

theorem not_mem_of_isBlank {w : List Char} (h : Text.isBlank w = true) :
    ∀ c ∈ w, c ∉ ['\\', '\x7b', '\x7d', '&'] := by
  intro c hc hm
  have hb := Text.isBlank_iff.mp h c hc
  simp only [List.mem_cons, List.not_mem_nil, or_false] at hm
  rcases hm with rfl | rfl | rfl | rfl <;> exact absurd hb (by decide)

/-- Blanks before a row belong to its first cell and are lost. -/
theorem cellTexts_append_of_isBlank {w : List Char} (h : Text.isBlank w = true) (s : List Char) :
    cellTexts (w ++ s) = cellTexts s := by
  rw [cellTexts, cellTexts, splitTop, splitTop,
    splitTopFrom_append_of_forall (not_mem_of_isBlank h)]
  obtain ⟨first, rest, hs⟩ := List.exists_cons_of_ne_nil (splitTopFrom_ne_nil '&' 0 s)
  rw [hs, foldr_consPiece, List.map_cons, List.map_cons, Text.trim_append_of_isBlank h]

theorem cellTexts_trimLeft (s : List Char) : cellTexts (' ' :: Text.trimLeft s) = cellTexts s := by
  obtain ⟨w, hw, hs⟩ := Text.exists_blank_append_trimLeft s
  have hl : cellTexts (' ' :: Text.trimLeft s) = cellTexts (Text.trimLeft s) :=
    cellTexts_append_of_isBlank (w := [' ']) (by decide) _
  rw [hl, ← cellTexts_append_of_isBlank hw, hs]

/-- **The cells of a printed row** are those that it was printed from, whatever blanks follow. -/
theorem cellTexts_rowText {cells : List (List Block)} (h : cells ≠ []) {w : List Char}
    (hw : Text.isBlank w = true) :
    cellTexts (rowText cells ++ w) = cells.map fun blocks => Text.trim (printCell blocks) := by
  induction cells with
  | nil => exact absurd rfl h
  | cons blocks cells ih =>
    have hinert := inert_printCell blocks
    by_cases hne : cells = []
    · have hblank : splitTopFrom '&' 0 w = [w] := by
        rw [← List.append_nil w, splitTopFrom_append_of_forall (not_mem_of_isBlank hw),
          splitTopFrom, foldr_consPiece]
      subst hne
      rw [rowText_singleton, cellTexts, splitTop, splitTopFrom_append hinert (.inl rfl), hblank,
        foldr_consPiece, List.map_singleton, Text.trim_append_blank hw]
      rfl
    · -- the cell ends with the space before the ampersand, the next begins with the one behind it
      have hspace : cellTexts (' ' :: (rowText cells ++ w)) = cellTexts (rowText cells ++ w) :=
        cellTexts_append_of_isBlank (w := [' ']) (by decide) _
      have hcut (t : List Char) : splitTopFrom '&' 0 (' ' :: '&' :: t)
          = [' '] :: splitTopFrom '&' 0 t := rfl
      rw [rowText_cons blocks hne, List.append_assoc, cellTexts, splitTop,
        splitTopFrom_append hinert (.inl rfl), List.cons_append, List.cons_append, hcut,
        foldr_consPiece, List.map_cons, Text.trim_append_blank (by decide), List.map_cons, ← ih hne,
        ← hspace]
      rfl

theorem normalizeItems_cellBlocks (texts : List (List Char)) :
    Block.normalizeItems (texts.map cellBlocks)
      = texts.map fun text => [.paragraph (Inline.normalizeList (tokenize text))] := by
  induction texts with
  | nil => rw [List.map_nil, Block.normalizeItems, List.map_nil]
  | cons text texts ih =>
    rw [List.map_cons, cellBlocks, Block.normalizeItems, ih, Block.normalize, Block.normalizeList,
      List.map_cons]

/-- **A printed row** is read back with its cells tidied. -/
theorem normalizeItems_cellTexts (cells : List (List Block)) :
    Block.normalizeItems ((cellTexts (rowPiece cells)).map cellBlocks)
      = imageRow cells := by
  rw [normalizeItems_cellBlocks, imageRow]
  split
  · next he =>
    have ht : cellTexts (rowPiece []) = [[]] := by decide
    rw [he, ht, List.map_cons, tokenize_nil]
    rfl
  · next hne =>
    have htexts := cellTexts_rowText hne (w := []) rfl
    rw [List.append_nil] at htexts
    rw [rowPiece, cellTexts_trimLeft, htexts, List.map_map]
    apply List.map_congr_left
    intro blocks _
    rw [Function.comp_apply, printCell_eq, normalizeList_tokenize_trim]

/-! ### Column specifications -/

/-- The alignments that a table with so many columns is read back with. -/
def imageAlignments (alignments : List Alignment) (columns : Nat) : List Alignment :=
  alignments ++ List.replicate (columns - alignments.length) .left

theorem columns_columnLetters (alignments : List Alignment) (n : Nat) :
    columns (columnLetters alignments n) = imageAlignments alignments n := by
  have hleft (k : Nat) : columnsFrom 0 (List.replicate k 'l') = List.replicate k .left := by
    induction k with
    | zero => rfl
    | succ k ih => rw [List.replicate_succ, columnsFrom, ih, List.replicate_succ]
  rw [columns, columnLetters, imageAlignments]
  generalize n - alignments.length = k
  induction alignments with
  | nil => exact hleft k
  | cons a alignments ih =>
    rw [List.map_cons, List.cons_append, List.cons_append, ← ih]
    cases a <;> rfl

/-- What holds of the three letters holds in a column specification. -/
theorem columnLetters_forall {p : Char → Prop} (h : ∀ c ∈ ['l', 'c', 'r'], p c)
    (alignments : List Alignment) (n : Nat) : ∀ c ∈ columnLetters alignments n, p c := by
  intro c hc
  apply h
  rcases List.mem_append.mp hc with hc | hc
  · obtain ⟨a, -, rfl⟩ := List.mem_map.mp hc
    cases a <;> decide
  · rw [List.eq_of_mem_replicate hc]
    decide

theorem inert_columnLetters (alignments : List Alignment) (n : Nat) :
    Inert (columnLetters alignments n) :=
  Inert.of_forall (columnLetters_forall (by decide) alignments n)

theorem isArgument_columnLetters (alignments : List Alignment) (n : Nat) :
    IsArgument ('\x7b' :: (columnLetters alignments n ++ ['\x7d'])) := by
  constructor
  · rw [← List.cons_append]
    exact Text.solidLast_concat.mpr (by decide)
  · rw [List.forall_mem_cons, List.forall_mem_append]
    exact ⟨by decide, columnLetters_forall (by decide) alignments n, by decide⟩

/-! ### Tables -/

/-- The number of columns of a table: at least one, and as many as the widest row has. -/
def columnCount (header : Option (List (List Block))) (rows : List (List (List Block))) : Nat :=
  ((header.toList ++ rows).map List.length).foldl max 1

/-- The number of columns is the least number with these bounds. -/
theorem columnCount_le_iff {header : Option (List (List Block))}
    {rows : List (List (List Block))} {n : Nat} :
    columnCount header rows ≤ n ↔ 1 ≤ n ∧ ∀ cells ∈ header.toList ++ rows, cells.length ≤ n := by
  rw [columnCount, List.max?_le_iff List.max?_cons', List.forall_mem_cons, List.forall_mem_map]

theorem one_le_columnCount (header : Option (List (List Block)))
    (rows : List (List (List Block))) : 1 ≤ columnCount header rows :=
  (columnCount_le_iff.mp le_rfl).1

theorem length_le_columnCount {header : Option (List (List Block))}
    {rows : List (List (List Block))} {cells : List (List Block)}
    (h : cells ∈ header.toList ++ rows) : cells.length ≤ columnCount header rows :=
  (columnCount_le_iff.mp le_rfl).2 cells h

/-- The lines before the rows of a table. -/
def headerLines : Option (List (List Block)) → List Line
  | some cells => ["\\hline".toList, printRow cells, "\\hline".toList]
  | none => []

/-- The pieces of the body of a printed table. -/
theorem tablePieces_table (header : Option (List (List Block))) (rows : List (List (List Block))) :
    tablePieces [] ((headerLines header ++ rows.map printRow).flatMap tabularLine)
      = (match header with
          | some cells => [.rule, .row (rowPiece cells), .rule]
          | none => []) ++ rows.map fun cells => .row (rowPiece cells) := by
  have hline : IsPieceLine (ruleLine "hline".toList none) .rule :=
    isPieceLine_ruleLine (by decide) (by simp)
  have hrule : IsPieceLine "\\hline".toList .rule := hline
  have hrow (cells : List (List Block)) : IsPieceLine (printRow cells) (.row (rowPiece cells)) :=
    (isRowText cells).isPieceLine
  refine tablePieces_lines (List.rel_append ?_ ?_)
  · cases header with
    | none => exact .nil
    | some cells => exact .cons hrule (.cons (hrow cells) (.cons hrule .nil))
  · rw [List.forall₂_map_left_iff, List.forall₂_map_right_iff, List.forall₂_same]
    exact fun cells _ => hrow cells

theorem rowTexts_map (rows : List (List (List Block))) :
    rowTexts (rows.map fun cells => .row (rowPiece cells)) = rows.map rowPiece := by
  rw [rowTexts, List.filterMap_map, ← List.filterMap_eq_map]
  rfl

theorem normalizeRows_cellTexts (rows : List (List (List Block))) :
    Block.normalizeRows (((rows.map rowPiece).map cellTexts).map (·.map cellBlocks))
      = rows.map imageRow := by
  induction rows with
  | nil => rfl
  | cons cells rows ih =>
    rw [List.map_cons, List.map_cons, List.map_cons, Block.normalizeRows, ih,
      normalizeItems_cellTexts, List.map_cons]

/-- **The body of a printed table** is read as its rows. -/
theorem normalize_ofBody (header : Option (List (List Block))) (rows : List (List (List Block)))
    (alignments : List Alignment) {n : Nat} (hn : n ≠ 0) :
    (Tabular.ofBody (columnLetters alignments n)
        ((headerLines header ++ rows.map printRow).flatMap tabularLine)).block.normalize
      = .table (header.map imageRow) (rows.map imageRow)
          (some (imageAlignments alignments n)) := by
  have hne : ¬ (imageAlignments alignments n).isEmpty = true := by
    rw [List.isEmpty_iff, imageAlignments]
    cases alignments with
    | nil => simpa using hn
    | cons a alignments => exact List.cons_ne_nil _ _
  rw [Tabular.ofBody, tablePieces_table, columns_columnLetters, if_neg hne, Tabular.block]
  dsimp only
  -- a table has a header exactly if a rule comes first
  cases header with
  | none =>
    have hheader : hasHeader ([] ++ rows.map fun cells => .row (rowPiece cells)) = false := by
      cases rows <;> rfl
    rw [hheader, if_neg (by decide), if_neg (by decide), List.nil_append, rowTexts_map,
      Option.map_none, Option.map_none, Block.normalize, normalizeRows_cellTexts]
  | some cells =>
    have hheader : hasHeader ([.rule, .row (rowPiece cells), .rule] ++
        rows.map fun cells => .row (rowPiece cells)) = true := rfl
    have htexts : rowTexts ([.rule, .row (rowPiece cells), .rule] ++
        rows.map fun cells => .row (rowPiece cells)) = rowPiece cells :: rows.map rowPiece := by
      rw [← rowTexts_map]
      rfl
    rw [hheader, if_pos rfl, if_pos rfl, htexts, List.map_cons, List.head?_cons, List.tail_cons,
      Option.map_some, Option.map_some, Block.normalize, normalizeRows_cellTexts,
      normalizeItems_cellTexts]

theorem plain_tableLines (header : Option (List (List Block)))
    (rows : List (List (List Block))) : ∀ line ∈ headerLines header ++ rows.map printRow,
      Plain line ∧ '\n' ∉ line := by
  have hhline : Plain "\\hline".toList ∧ '\n' ∉ "\\hline".toList :=
    ⟨⟨by decide, by decide⟩, by decide⟩
  rw [List.forall_mem_append]
  constructor
  · cases header with
    | none => exact fun line hl => absurd hl List.not_mem_nil
    | some cells =>
      rw [headerLines, List.forall_mem_cons, List.forall_mem_cons, List.forall_mem_singleton]
      exact ⟨hhline, (isRowText cells).plain, hhline⟩
  · intro line hl
    obtain ⟨cells, -, rfl⟩ := List.mem_map.mp hl
    exact (isRowText cells).plain

/-- The environment of a table: its specification is the argument of the opening marker. -/
theorem environmentBlocks_tabular {spec : List Char} (h : Inert spec) (body : List Line) :
    environmentBlocks ⟨"tabular".toList, '\x7b' :: (spec ++ ['\x7d']), body, []⟩
      = [(Tabular.ofBody spec (body.flatMap tabularLine)).block] := by
  have hskip : skipBracketed (Text.trimLeft ('\x7b' :: (spec ++ ['\x7d'])))
      = '\x7b' :: (spec ++ ['\x7d']) := rfl
  have ht : Environment.tabular ⟨"tabular".toList, '\x7b' :: (spec ++ ['\x7d']), body, []⟩
      = Tabular.ofBody spec (body.flatMap tabularLine) := by
    rw [Environment.tabular]
    dsimp only
    rw [hskip, braced?_append h []]
    rfl
  rw [environmentBlocks, ← ht]
  rfl

/-- The lines of a printed table: its specification stands in braces behind the opening marker. -/
theorem splitOn_printTable (header : Option (List (List Block)))
    (rows : List (List (List Block))) (alignments : Option (List Alignment)) :
    Text.splitOn '\n' (printTable header rows alignments)
      = (openingMarker "tabular".toList ++ '\x7b' ::
            (columnLetters (alignments.getD []) (columnCount header rows) ++ ['\x7d'])) ::
          (headerLines header ++ rows.map printRow ++ [closingMarker "tabular".toList]) := by
  have harguments := isArgument_columnLetters (alignments.getD []) (columnCount header rows)
  generalize hspec : columnLetters (alignments.getD []) (columnCount header rows) = spec at *
  have hopen : command "begin" ["tabular".toList, spec]
      = openingMarker "tabular".toList ++ '\x7b' :: (spec ++ ['\x7d']) := by
    rw [command, List.flatMap_cons, List.flatMap_cons, List.flatMap_nil, List.append_nil]
    rfl
  -- a table is printed as its lines, with line feeds between them
  have hprint : printTable header rows alignments
      = Text.join ['\n'] (command "begin" ["tabular".toList, spec] ::
          (headerLines header ++ rows.map printRow ++ [command "end" ["tabular".toList]])) := by
    rw [← hspec]
    cases header <;> rfl
  rw [hprint, hopen, command_end, Text.splitOn_join_of_not_mem _ (List.cons_ne_nil _ _)]
  rw [List.forall_mem_cons, List.forall_mem_append, List.forall_mem_singleton]
  exact ⟨not_mem_openingMarker (by decide) harguments.noLineFeed,
    fun line hl => (plain_tableLines header rows line hl).2, by decide⟩

/-- **A table** is read back with tidied cells, and with alignments for all its columns. -/
theorem prints_table (header : Option (List (List Block))) (rows : List (List (List Block)))
    (alignments : Option (List Alignment)) :
    Prints (printTable header rows alignments)
      [.table (header.map imageRow) (rows.map imageRow)
        (some (imageAlignments (alignments.getD []) (columnCount header rows)))] := by
  have hcount : columnCount header rows ≠ 0 :=
    Nat.one_le_iff_ne_zero.mp (one_le_columnCount header rows)
  have hlines := plain_tableLines header rows
  refine prints_environmentLines (by decide) (isArgument_columnLetters _ _)
    (splitOn_printTable header rows alignments) (nested_of_plain fun line hl => (hlines line hl).1)
    (.inl (by decide)) ?_
  rw [environmentBlocks_tabular (inert_columnLetters _ _), Block.normalizeList,
    normalize_ofBody header rows _ hcount, Block.normalizeList]

end Interdoc.Latex

import Interdoc.Proofs.Markdown.Tables
import Interdoc.Proofs.Text.Trim

/-!
# Documents through Markdown trees

`throughTree` takes a document to its Markdown tree and back, and `settle` says what becomes of each
block on the way (`throughTree_eq`).  Markdown cannot say everything that a document can: empty
paragraphs vanish unless an item needs one, tables become rectangles with a header, the levels of
headings are cut to those in use, and the language of code is a single word.

All of that is settled after one pass, so a second pass changes nothing, and neither does the first
if the document is settled already (`throughTree_throughTree`).
-/

namespace Interdoc.Markdown

open Interdoc (Block Alignment)

open Interdoc.Block (emptyParagraph)

/-! ### Code -/

/-- Whether the language of code is a single word, or there is none. -/
def isWord (language : Option String) : Bool :=
  language.all fun l => l != "" && l.toList.all fun c => !Text.isBlankChar c

/-- The language that comes back with a language. -/
def firstWord? (language : Option String) : Option String :=
  language? (language.getD "").toList

theorem isWord_firstWord? (language : Option String) : isWord (firstWord? language) = true := by
  rw [firstWord?, language?]
  generalize (language.getD "").toList = info
  cases hw : (Text.words info).head? with
  | none => rfl
  | some w =>
    obtain ⟨hne, hblank⟩ := Text.mem_fields (List.mem_of_mem_head? hw)
    simpa [isWord, hne] using hblank

theorem firstWord?_eq_self {language : Option String} (h : isWord language = true) :
    firstWord? language = language := by
  cases language with
  | none => rfl
  | some l =>
    simp only [isWord, Option.all_some, Bool.and_eq_true, bne_iff_ne, List.all_eq_true,
      Bool.not_eq_true'] at h
    have hne : l.toList ≠ [] := by simpa using h.1
    rw [firstWord?, Option.getD_some, language?, Text.words, Text.fields_of_forall hne h.2,
      List.head?_cons, Option.map_some, String.ofList_toList]

/-- The text of code comes back. -/
theorem codeText_codeLiteral (text : String) :
    String.ofList (codeText (codeLiteral text).toList) = text := by
  rw [codeLiteral]
  split
  · next h => rw [h]; rfl
  · have hsuffix : Text.stripSuffix? ['\n'] (text ++ "\n").toList = some text.toList := by
      rw [String.toList_append]
      exact Text.stripSuffix?_append _ _
    rw [codeText, hsuffix, Option.getD_some, String.ofList_toList]

/-! ### Blocks -/

mutual

/-- What becomes of a block on the way through its nodes. -/
def settle : Block → List Block
  | .paragraph inlines => if inlines.isEmpty then [] else [.paragraph (throughSpans inlines)]
  | .heading level inlines => [.heading (max 1 (min level 6)) (throughSpans inlines)]
  | .list ordered items => [.list ordered (settleItems items)]
  | .quote blocks => [.quote (settleList blocks)]
  | .code text language => [.code text (firstWord? language)]
  | .rule => [.rule]
  | .table header rows alignments => settleTable (header.toList ++ rows) alignments

/-- What becomes of a sequence of blocks. -/
def settleList : List Block → List Block
  | [] => []
  | b :: rest => settle b ++ settleList rest

/-- What becomes of items, none of which stays empty. -/
def settleItems : List (List Block) → List (List Block)
  | [] => []
  | blocks :: rest =>
    (if settleList blocks = [] then [emptyParagraph] else settleList blocks) :: settleItems rest

end

theorem listToBlocks_append (xs ys : List Node) :
    Node.listToBlocks (xs ++ ys) = Node.listToBlocks xs ++ Node.listToBlocks ys := by
  induction xs with
  | nil => rfl
  | cons x xs ih =>
    rw [List.cons_append, Node.listToBlocks, Node.listToBlocks, ih, List.append_assoc]

mutual

theorem normalizeList_ofBlock : ∀ b : Block,
    Block.normalizeList (Node.listToBlocks (Node.ofBlock b)) = settle b
  | .paragraph [] => rfl
  | .paragraph (i :: rest) => by
    rw [settle, if_neg (by simp), ← normalizeList_toInlines]
    rfl
  | .heading level inlines => by
    -- the level is cut on both ways
    have hlevel : max 1 (min (max 1 (min level 6)) 6) = max 1 (min level 6) := by omega
    rw [settle, ← normalizeList_toInlines, ← hlevel]
    rfl
  | .list ordered items => by
    rw [settle, ← normalizeItems_ofItems items]
    rfl
  | .quote blocks => by
    rw [settle, ← normalizeList_ofBlocks blocks]
    rfl
  | .code text language => by
    rw [settle, firstWord?]
    nth_rewrite 2 [← codeText_codeLiteral text]
    rfl
  | .rule => rfl
  | .table header rows alignments => normalizeList_tableNodes (header.toList ++ rows) alignments

theorem normalizeList_ofBlocks : ∀ blocks : List Block,
    Block.normalizeList (Node.listToBlocks (Node.ofBlocks blocks)) = settleList blocks
  | [] => rfl
  | b :: rest => by
    rw [Node.ofBlocks, listToBlocks_append, Block.normalizeList_append, normalizeList_ofBlock b,
      normalizeList_ofBlocks rest, settleList]

theorem normalizeItems_ofItems : ∀ items : List (List Block),
    Block.normalizeItems (Node.itemsToBlocks (Node.ofItems items)) = settleItems items
  | [] => rfl
  | blocks :: rest => by
    rw [Node.ofItems, Node.itemsToBlocks, Block.normalizeItems_cons, normalizeList_ofBlocks blocks,
      normalizeItems_ofItems rest, settleItems]

end

/-! ### Settled blocks -/

mutual

/-- Whether Markdown can say a block as it is. -/
def isSettled : Block → Bool
  | .paragraph inlines => !inlines.isEmpty && haveNoEmptyAlt inlines
  | .heading level inlines => decide (1 ≤ level ∧ level ≤ 6) && haveNoEmptyAlt inlines
  | .list _ items => areSettledItems items
  | .quote blocks => areSettled blocks
  | .code _ language => isWord language
  | .rule => true
  | .table header rows alignments => isSettledTable header rows alignments

/-- Whether Markdown can say a sequence of blocks as it is. -/
def areSettled : List Block → Bool
  | [] => true
  | b :: rest => isSettled b && areSettled rest

/-- Whether Markdown can say items as they are.  An item may be an empty paragraph. -/
def areSettledItems : List (List Block) → Bool
  | [] => true
  | blocks :: rest =>
    (decide (blocks = [emptyParagraph]) || areSettled blocks) && areSettledItems rest

end

theorem areSettled_append (bs cs : List Block) :
    areSettled (bs ++ cs) = (areSettled bs && areSettled cs) := by
  induction bs with
  | nil => rfl
  | cons b bs ih => rw [List.cons_append, areSettled, areSettled, ih, Bool.and_assoc]

theorem areSettled_settleTable (rows : List (List (List Block)))
    (alignments : Option (List Alignment)) : areSettled (settleTable rows alignments) = true := by
  cases rows with
  | nil => rfl
  | cons first rest =>
    rw [settleTable, if_neg (by simp)]
    have hcolumns := one_le_columnCount (first :: rest) alignments
    generalize columnCount (first :: rest) alignments = n at hcolumns ⊢
    have hlength : (settleRow n first).length = n := length_padTo _ _ _
    have hne : (settleRow n first).isEmpty = false := by
      rw [List.isEmpty_eq_false_iff, ← List.length_pos_iff, hlength]
      exact hcolumns
    -- rows and alignments are filled up to the same number of columns
    have hrows : ((first :: rest).map (settleRow n)).all (isSettledRow n) = true := by
      rw [List.all_map, List.all_eq_true]
      exact fun row _ => isSettledRow_settleRow n row
    have hfull := isFull_columnAlignments? (padTo n none ((alignments.getD []).map some))
    rw [length_padTo] at hfull
    simp only [areSettled, isSettled, isSettledTable, List.map_cons, List.head?_cons,
      List.tail_cons, Option.any_some, hlength, hne, hfull, Bool.not_false, Bool.and_true,
      Bool.true_and]
    exact hrows

mutual

theorem areSettled_settle : ∀ {b : Block}, b.IsNormal → areSettled (settle b) = true
  | .paragraph inlines, hn => by
    rw [Block.IsNormal] at hn
    rw [settle]
    split
    · rfl
    · next h =>
      have hne : throughSpans inlines ≠ [] := throughSpans_ne_nil hn (by simpa using h)
      simp [areSettled, isSettled, haveNoEmptyAlt_throughSpans, hne]
  | .heading level inlines, _ => by
    simp only [settle, areSettled, isSettled, haveNoEmptyAlt_throughSpans, Bool.and_true,
      decide_eq_true_eq]
    omega
  | .list ordered items, hn => by
    rw [Block.IsNormal] at hn
    rw [settle, areSettled, isSettled, areSettledItems_settleItems hn, areSettled, Bool.and_true]
  | .quote blocks, hn => by
    rw [Block.IsNormal] at hn
    rw [settle, areSettled, isSettled, areSettled_settleList hn, areSettled, Bool.and_true]
  | .code text language, _ => by
    rw [settle, areSettled, isSettled, isWord_firstWord?, areSettled, Bool.and_true]
  | .rule, _ => rfl
  | .table header rows alignments, _ => areSettled_settleTable (header.toList ++ rows) alignments

/-- **What comes back is settled.** -/
theorem areSettled_settleList : ∀ {blocks : List Block}, Block.IsNormalList blocks →
    areSettled (settleList blocks) = true
  | [], _ => rfl
  | b :: rest, hn => by
    rw [Block.IsNormalList] at hn
    rw [settleList, areSettled_append, areSettled_settle hn.1, areSettled_settleList hn.2,
      Bool.and_true]

theorem areSettledItems_settleItems : ∀ {items : List (List Block)}, Block.IsNormalItems items →
    areSettledItems (settleItems items) = true
  | [], _ => rfl
  | blocks :: rest, hn => by
    rw [Block.IsNormalItems] at hn
    rw [settleItems, areSettledItems, areSettledItems_settleItems hn.2, Bool.and_true]
    split
    · rfl
    · rw [areSettled_settleList hn.1.2, Bool.or_true]

end

mutual

theorem settle_eq_self : ∀ {b : Block}, b.IsNormal → isSettled b = true → settle b = [b]
  | .paragraph inlines, hn, h => by
    rw [Block.IsNormal] at hn
    rw [isSettled, Bool.and_eq_true, Bool.not_eq_true'] at h
    rw [settle, if_neg (by simp [h.1]), throughSpans_eq_self hn h.2]
  | .heading level inlines, hn, h => by
    rw [Block.IsNormal] at hn
    rw [isSettled, Bool.and_eq_true, decide_eq_true_eq] at h
    have hlevel : max 1 (min level 6) = level := by omega
    rw [settle, throughSpans_eq_self hn h.2, hlevel]
  | .list ordered items, hn, h => by
    rw [Block.IsNormal] at hn
    rw [isSettled] at h
    rw [settle, settleItems_eq_self hn h]
  | .quote blocks, hn, h => by
    rw [Block.IsNormal] at hn
    rw [isSettled] at h
    rw [settle, settleList_eq_self hn h]
  | .code text language, _, h => by
    rw [isSettled] at h
    rw [settle, firstWord?_eq_self h]
  | .rule, _, _ => rfl
  | .table header rows alignments, hn, h => by
    rw [isSettled] at h
    rw [settle, settleTable_eq_self hn h]

/-- **What is settled comes back.** -/
theorem settleList_eq_self : ∀ {blocks : List Block}, Block.IsNormalList blocks →
    areSettled blocks = true → settleList blocks = blocks
  | [], _, _ => rfl
  | b :: rest, hn, h => by
    rw [Block.IsNormalList] at hn
    rw [areSettled, Bool.and_eq_true] at h
    rw [settleList, settle_eq_self hn.1 h.1, settleList_eq_self hn.2 h.2, List.singleton_append]

theorem settleItems_eq_self : ∀ {items : List (List Block)}, Block.IsNormalItems items →
    areSettledItems items = true → settleItems items = items
  | [], _, _ => rfl
  | blocks :: rest, hn, h => by
    rw [Block.IsNormalItems] at hn
    rw [areSettledItems, Bool.and_eq_true, Bool.or_eq_true, decide_eq_true_eq] at h
    rw [settleItems, settleItems_eq_self hn.2 h.2]
    rcases h.1 with rfl | hblocks
    · -- the empty paragraph of the item vanishes and is put back
      rfl
    · rw [settleList_eq_self hn.1.2 hblocks, if_neg hn.1.1]

end

/-! ### Documents -/

/-- A document on the way through its Markdown tree. -/
def throughTree (d : Document) : Document :=
  Node.toDocument (Node.ofDocument d)

theorem throughTree_eq (d : Document) : throughTree d = ⟨settleList d.blocks⟩ :=
  congrArg Document.mk (normalizeList_ofBlocks d.blocks)

/-- **A normal document settles after one pass** through its Markdown tree, and comes back as it is
if it is settled: paragraphs without inlines are the only blocks of items, or stand in cells;
headings have the levels 1 to 6; the languages of code are single words; no image has an empty
description; and tables are rectangles with a header, of one column at least, one paragraph in each
cell and alignments for all columns or for none. -/
theorem throughTree_throughTree {d : Document} (h : d.IsNormal) :
    throughTree (throughTree d) = throughTree d ∧
      (areSettled d.blocks = true → throughTree d = d) := by
  have hback {e : Document} (hn : e.IsNormal) (hs : areSettled e.blocks = true) :
      throughTree e = e := by
    rw [throughTree_eq, settleList_eq_self hn hs]
  -- what comes back is normal by the last step of the way, and settled by all the others
  refine ⟨hback (Document.normalize_isNormal _) ?_, hback h⟩
  rw [throughTree_eq]
  exact areSettled_settleList h

/-- A list with an empty item, underlined lines and code, and a table of two columns. -/
def settledNotes : Document :=
  ⟨[.list true
      [[emptyParagraph],
        [.paragraph [.text "a", .underline [.text "b\nc", .underline [.text "d"]]],
          .quote [.code "x\n" (some "lean")]]],
    .table (some [[.paragraph []], [.paragraph [.image "i.png" (some "k")]]])
      [[[.paragraph [.text "1"]], [.paragraph [.strong [.text "2"]]]]] (some [.left, .center])]⟩

theorem throughTree_settledNotes :
    settledNotes.IsNormal ∧ areSettled settledNotes.blocks = true ∧
      throughTree (throughTree settledNotes) = throughTree settledNotes ∧
      throughTree settledNotes = settledNotes :=
  have hn : settledNotes.IsNormal := by decide
  have hs : areSettled settledNotes.blocks = true := by decide
  ⟨hn, hs, (throughTree_throughTree hn).1, (throughTree_throughTree hn).2 hs⟩

-- ragged rows without a header settle as a rectangle with a header
example :
    throughTree ⟨[emptyParagraph,
      .table none [[[.code "a\nb" none]], []] (some [.left, .right])]⟩ =
    ⟨[.table (some [[.paragraph [.text "a b"]], [emptyParagraph]])
      [[[emptyParagraph], [emptyParagraph]]] (some [.left, .right])]⟩ := by decide

end Interdoc.Markdown

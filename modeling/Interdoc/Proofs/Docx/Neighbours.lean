import Interdoc.Proofs.Document.NormalForm
import Interdoc.Proofs.Docx.RoundTrip
import Interdoc.Proofs.Docx.Texts

/-!
# Blocks next to each other

Where a block ends is not written.  Lists stay apart by their numbers, but code and quotes are
found again as runs of paragraphs of the same style, so that code next to code is read as one block,
and so are quotes (`joined`).

Joining leaves no trace in the layout (`layoutBlocks_joined`), and joined blocks stay apart.  In
front of that, texts are put into normal form, which a layout shows, but a rendering does not
(`layoutBlocks_alike`).
-/

namespace Interdoc.Docx

open Interdoc (Inline Block)
open Html (Piece Reads)

variable {o : Options}

/-! ### Blocks -/

/-- Whether an item is a single paragraph of texts. -/
def isTextItem : List Block → Bool
  | [b] => isTextParagraph b
  | _ => false

/-- Whether a block is a paragraph of texts, a quote of such paragraphs, a list of single ones, or
code that does not end in a line feed. -/
def isSimpleBlock : Block → Bool
  | .paragraph xs => arePlainTexts xs
  | .quote blocks => !blocks.isEmpty && blocks.all isTextParagraph
  | .list _ items => !items.isEmpty && items.all isTextItem
  | .code text _ => isPlainCode text
  | .heading _ _ | .rule | .table _ _ _ => false

/-- A block in normal form; code has no language. -/
def tidy : Block → Block
  | .code text _ => .code text none
  | b => b.normalize

/-- One block for two that are read as one. -/
def join? : Block → Block → Option Block
  | .code s _, .code t _ => some (.code (s ++ "\n" ++ t) none)
  | .quote blocks, .quote others => some (.quote (blocks ++ others))
  | _, _ => none

/-- A block in front of blocks, joined with the first of them if that can be. -/
def joinFirst (b : Block) : List Block → List Block
  | [] => [b]
  | c :: rest => match join? b c with
    | some bc => bc :: rest
    | none => b :: c :: rest

/-- Blocks, all of which that can be are joined. -/
def joined (blocks : List Block) : List Block :=
  blocks.foldr joinFirst []

/-- A block as it is read: the last line feed of code is not taken for a part of it. -/
def chomped : Block → Block
  | .code text language => .code (Html.chompLine text) language
  | b => b

/-- A document of simple blocks as it is read. -/
def asRead (d : Document) : Document :=
  ⟨(joined (d.blocks.map tidy)).map chomped⟩

-- an empty line at the end of joined code is lost
example : asRead ⟨[.code "a" (some "c"), .code "b" none, .rule, .code "a" none, .code "" none]⟩ =
    ⟨[.code "a\nb" none, .rule, .code "a" none]⟩ := by decide

/-! ### Joining -/

theorem join?_eq_none_iff {b c : Block} : join? b c = none ↔ stayApart b c = true := by
  cases b <;> cases c <;> simp [join?, stayApart]

/-- What two blocks are joined to stays apart from what the second one does. -/
theorem stayApart_join? {b c bc : Block} (h : join? b c = some bc) (other : Block) :
    stayApart bc other = stayApart c other := by
  cases b <;> cases c <;> cases h <;> cases other <;> rfl

theorem joined_cons (b : Block) (blocks : List Block) :
    joined (b :: blocks) = joinFirst b (joined blocks) := rfl

/-- **Joined blocks stay apart.** -/
theorem isChain_joined (blocks : List Block) :
    (joined blocks).IsChain fun a b => stayApart a b = true := by
  induction blocks with
  | nil => exact .nil
  | cons b blocks ih =>
    rw [joined_cons]
    generalize joined blocks = others at ih
    cases others with
    | nil => exact .singleton b
    | cons c rest =>
      rw [joinFirst]
      cases hjoin : join? b c with
      | none => exact .cons_cons (join?_eq_none_iff.mp hjoin) ih
      | some bc =>
        rw [List.isChain_cons] at ih ⊢
        exact ⟨fun d hd => (stayApart_join? hjoin d).trans (ih.1 d hd), ih.2⟩

/-- Blocks that stay apart are not joined. -/
theorem joined_eq_self {blocks : List Block}
    (h : blocks.IsChain fun a b => stayApart a b = true) : joined blocks = blocks := by
  induction blocks with
  | nil => rfl
  | cons b blocks ih =>
    rw [List.isChain_cons] at h
    rw [joined_cons, ih h.2]
    cases blocks with
    | nil => rfl
    | cons c rest => rw [joinFirst, join?_eq_none_iff.mpr (h.1 c rfl)]

/-- There are fewer blocks after joining, unless they stay apart. -/
theorem length_joined (blocks : List Block) : (joined blocks).length ≤ blocks.length ∧
    ((joined blocks).length = blocks.length → joined blocks = blocks) := by
  induction blocks with
  | nil => exact ⟨le_rfl, fun _ => rfl⟩
  | cons b blocks ih =>
    obtain ⟨hle, heq⟩ := ih
    rw [joined_cons, List.length_cons]
    generalize joined blocks = others at hle heq
    cases others with
    | nil =>
      rw [joinFirst, List.length_singleton]
      refine ⟨by omega, fun h => ?_⟩
      rw [← heq (by rw [List.length_nil]; omega)]
    | cons c rest =>
      rw [List.length_cons] at hle heq
      rw [joinFirst]
      -- a block that is joined to the next one makes the list shorter for good
      cases join? b c with
      | none =>
        rw [List.length_cons, List.length_cons]
        exact ⟨by omega, fun h => by rw [heq (by omega)]⟩
      | some bc =>
        rw [List.length_cons]
        exact ⟨by omega, fun h => by omega⟩

/-- What holds of blocks, and passes on to what they are joined to, holds of joined blocks. -/
theorem forall_mem_joined {P : Block → Prop}
    (hjoin : ∀ b c bc, P b → P c → join? b c = some bc → P bc) {blocks : List Block}
    (h : ∀ b ∈ blocks, P b) : ∀ b ∈ joined blocks, P b := by
  induction blocks with
  | nil => exact h
  | cons b blocks ih =>
    rw [List.forall_mem_cons] at h
    have hrest := ih h.2
    rw [joined_cons]
    generalize joined blocks = others at hrest
    cases others with
    | nil => exact List.forall_mem_singleton.mpr h.1
    | cons c rest =>
      rw [List.forall_mem_cons] at hrest
      rw [joinFirst]
      cases hbc : join? b c with
      | none => exact List.forall_mem_cons.mpr ⟨h.1, List.forall_mem_cons.mpr hrest⟩
      | some bc => exact List.forall_mem_cons.mpr ⟨hjoin b c bc h.1 hrest.1 hbc, hrest.2⟩

/-- Two blocks that are joined have the layout that they have next to each other. -/
theorem layoutBlock_join? {b c bc : Block} (h : join? b c = some bc) (next : Nat) :
    layoutBlock o next 0 bc = layoutBlock o next 0 b ++
      layoutBlock o (next + (layoutBlock o next 0 b).lists.length) 0 c := by
  cases b <;> cases c <;> cases h
  case quote.quote.refl blocks others =>
    rw [layoutBlock, layoutBlock, layoutBlock, layoutStyled_append]
  case code.code.refl s _ t _ =>
    have hlines : (s ++ "\n" ++ t).toList = s.toList ++ '\n' :: t.toList := by simp
    rw [layoutBlock, layoutBlock, layoutBlock, hlines, Text.splitOn_append_sep, List.map_append]
    rfl

/-- **Joining leaves no trace in the layout.** -/
theorem layoutBlocks_joined (next : Nat) (blocks : List Block) :
    layoutBlocks o next (joined blocks) = layoutBlocks o next blocks := by
  induction blocks generalizing next with
  | nil => rfl
  | cons b blocks ih =>
    rw [joined_cons, layoutBlocks, ← ih]
    generalize joined blocks = others
    cases others with
    | nil => rfl
    | cons c rest =>
      rw [joinFirst]
      cases hjoin : join? b c with
      | none => rfl
      | some bc =>
        dsimp only
        rw [layoutBlocks, layoutBlock_join? hjoin, layoutBlocks, Layout.append_assoc,
          Layout.lists_append, List.length_append, Nat.add_assoc]

/-! ### Texts in normal form -/

/-- Layouts with the same lists and with items that are read alike. -/
structure Layout.Alike (l l' : Layout) : Prop where
  lists : l.lists = l'.lists
  items : List.Forall₂ BodyItem.Alike (l.items.map LayoutItem.read) (l'.items.map LayoutItem.read)

/-- A layout without links that is read alike to another one. -/
def Layout.PlainlyAlike (l l' : Layout) : Prop :=
  l.IsPlain ∧ l.Alike l'

namespace Layout.PlainlyAlike

variable {l l' m m' : Layout}

theorem append (h : l.PlainlyAlike l') (h' : m.PlainlyAlike m') :
    (l ++ m).PlainlyAlike (l' ++ m') := by
  refine ⟨h.1.append h'.1, ?_, ?_⟩
  · rw [Layout.lists_append, Layout.lists_append, h.2.lists, h'.2.lists]
  · rw [Layout.items_append, Layout.items_append, List.map_append, List.map_append]
    exact List.rel_append h.2.items h'.2.items

theorem refl (h : l.IsPlain) : l.PlainlyAlike l :=
  ⟨h, rfl, List.forall₂_same.mpr fun item _ => .refl item⟩

theorem empty : Layout.empty.PlainlyAlike .empty :=
  refl (List.forall_mem_nil _)

end Layout.PlainlyAlike

/-- A paragraph of texts is laid out alike to its normal form, whatever its style is, if it is not
that of code. -/
theorem layoutParagraph_alike (base : WrittenParagraph)
    (hkind : ParagraphKind.ofStyle (Xml.unbroken (base.style.getD "")) ≠ .code) {xs : List Inline}
    (h : arePlainTexts xs = true) :
    (Layout.paragraph o base xs).PlainlyAlike
      (.paragraph o base (Inline.normalizeList xs)) := by
  let q : WrittenParagraph := { base with parts := partsAmong o {} xs }
  have hcode : q.read.kind ≠ .code := by rwa [kind_read]
  exact ⟨Layout.isPlain_ofItem (text_spec h (q := q) rfl).1, rfl,
    .cons (.paragraph ((alike_paragraph base h).read hcode)) .nil⟩

/-- The styles of paragraphs in quotes and lists are not that of code. -/
theorem kind_ne_code :
    ParagraphKind.ofStyle (Xml.unbroken "") ≠ .code ∧
      ParagraphKind.ofStyle (Xml.unbroken Style.blockquote) ≠ .code := by
  rw [Context.kind_of_style.1, Context.kind_of_style.2.2.1]
  decide

theorem layoutStyled_alike {blocks : List Block} (h : ∀ b ∈ blocks, isTextParagraph b = true)
    (next depth : Nat) :
    (layoutStyled o next depth Style.blockquote blocks).PlainlyAlike
      (layoutStyled o next depth Style.blockquote (Block.normalizeList blocks)) := by
  induction blocks generalizing next with
  | nil => exact .empty
  | cons b blocks ih =>
    rw [List.forall_mem_cons] at h
    obtain ⟨xs, rfl, hxs⟩ := exists_of_isTextParagraph h.1
    rw [Block.normalizeList, Block.normalize, layoutStyled_cons, layoutStyled_cons]
    exact (layoutParagraph_alike { style := some Style.blockquote } kind_ne_code.2 hxs).append
      (ih h.2 next)

theorem layoutItems_alike {items : List (List Block)}
    (h : ∀ blocks ∈ items, isTextItem blocks = true) (next depth : Nat) (place : ListPlace) :
    (layoutItems o next depth place items).PlainlyAlike
      (layoutItems o next depth place (Block.normalizeItems items)) := by
  induction items generalizing next with
  | nil => exact .empty
  | cons blocks items ih =>
    rw [List.forall_mem_cons] at h
    obtain ⟨hblocks, hitems⟩ := h
    match blocks, hblocks with
    | [b], hb =>
      obtain ⟨xs, rfl, hxs⟩ := exists_of_isTextParagraph hb
      rw [Block.normalizeItems, Block.normalize, Block.normalizeList, layoutItems_cons,
        layoutItems_cons]
      exact ((layoutParagraph_alike { place := some place } kind_ne_code.1 hxs).append
        .empty).append (ih hitems next)

theorem layoutBlock_alike {b : Block} (h : isSimpleBlock b = true) (next : Nat) :
    (layoutBlock o next 0 b).PlainlyAlike (layoutBlock o next 0 (tidy b)) := by
  cases b with
  | paragraph xs => exact layoutParagraph_alike {} kind_ne_code.1 h
  | quote blocks =>
    rw [isSimpleBlock, Bool.and_eq_true, List.all_eq_true] at h
    exact layoutStyled_alike h.2 next 0
  | list ordered items =>
    rw [isSimpleBlock, Bool.and_eq_true, List.all_eq_true] at h
    obtain ⟨hplain, halike⟩ := layoutItems_alike (o := o) h.2 (next + 1) (0 + 1) ⟨next, 0⟩
    exact ⟨hplain, congrArg (List.cons ordered) halike.lists, halike.items⟩
  | code text language =>
    refine .refl fun item hitem => ?_
    obtain ⟨line, -, rfl⟩ := List.mem_map.mp hitem
    exact isPlain_item rfl
  | heading | rule | table => cases h

/-- **Simple blocks are laid out alike to their normal form.** -/
theorem layoutBlocks_alike {blocks : List Block} (h : ∀ b ∈ blocks, isSimpleBlock b = true)
    (next : Nat) :
    (layoutBlocks o next blocks).PlainlyAlike (layoutBlocks o next (blocks.map tidy)) := by
  induction blocks generalizing next with
  | nil => exact .empty
  | cons b blocks ih =>
    rw [List.forall_mem_cons] at h
    have hfirst := layoutBlock_alike (o := o) h.1 next
    rw [List.map_cons, layoutBlocks, layoutBlocks, ← hfirst.2.lists]
    exact hfirst.append (ih h.2 _)

/-! ### Joined blocks -/

/-- Whether a block is rendered as its HTML: it keeps its form, or is code that ends in a line feed
where it should not. -/
def isRendered : Block → Bool
  | .code text language => language.isNone && areLines text
  | b => isPlainBlock b

/-- A block that is rendered as its HTML, and read from it but for a line feed at the end of code.
-/
def IsSolid (b : Block) : Prop :=
  isRendered b = true ∧ b.IsNormal

theorem isPlainParagraph_of_mem_normalizeList {blocks : List Block}
    (h : ∀ b ∈ blocks, isTextParagraph b = true) :
    ∀ b ∈ Block.normalizeList blocks, isPlainParagraph b = true := by
  rw [Block.normalizeList_eq_map]
  exact List.forall_mem_map.mpr fun b hb => isPlainParagraph_normalize (h b hb)

theorem normalizeItems_texts {items : List (List Block)}
    (h : ∀ blocks ∈ items, isTextItem blocks = true) :
    ∀ blocks ∈ Block.normalizeItems items, ∃ b, blocks = [b] ∧ isPlainParagraph b = true := by
  induction items with
  | nil => exact List.forall_mem_nil _
  | cons blocks items ih =>
    rw [List.forall_mem_cons] at h
    obtain ⟨hblocks, hitems⟩ := h
    match blocks, hblocks with
    | [b], hb =>
      rw [Block.normalizeItems, Block.normalizeList, List.forall_mem_cons]
      exact ⟨⟨b.normalize, rfl, isPlainParagraph_normalize hb⟩, ih hitems⟩

/-- The normal form of a simple block is solid. -/
theorem isSolid_tidy {b : Block} (h : isSimpleBlock b = true) : IsSolid (tidy b) := by
  cases b with
  | paragraph xs =>
    exact ⟨isPlainParagraph_normalize (b := .paragraph xs) h, Block.normalize_isNormal _⟩
  | quote blocks =>
    refine ⟨?_, Block.normalize_isNormal _⟩
    rw [isSimpleBlock, Bool.and_eq_true, List.all_eq_true] at h
    have hplain := isPlainParagraph_of_mem_normalizeList h.2
    show arePlainParagraphs (Block.normalizeList blocks) = true
    rw [arePlainParagraphs, Bool.and_eq_true, List.all_eq_true]
    exact ⟨by rw [Block.normalizeList_eq_map, List.isEmpty_map]; exact h.1, hplain⟩
  | list ordered items =>
    refine ⟨?_, Block.normalize_isNormal _⟩
    rw [isSimpleBlock, Bool.and_eq_true, List.all_eq_true] at h
    have hitems := normalizeItems_texts h.2
    show isPlainList (deepestLevel + 1) (.list ordered (Block.normalizeItems items)) = true
    rw [isPlainList, Bool.and_eq_true, List.all_eq_true]
    constructor
    · cases items with
      | nil => exact h.1
      | cons blocks items => cases blocks <;> rfl
    · intro blocks hblocks
      obtain ⟨b, rfl, hb⟩ := hitems blocks hblocks
      rw [List.head?_cons, Option.any_some, hb, List.dropWhile_cons_of_pos hb]
      rfl
  | code text language => exact ⟨(isPlainCode_iff.mp h).1, trivial⟩
  | heading | rule | table => cases h

/-- **Solid blocks are joined to solid blocks.** -/
theorem isSolid_join? {b c bc : Block} (hb : IsSolid b) (hc : IsSolid c)
    (h : join? b c = some bc) : IsSolid bc := by
  -- only quotes are joined to quotes, and code to code
  cases b <;> cases c <;> cases h
  case quote.quote.refl blocks others =>
    obtain ⟨hb, hbn⟩ := hb
    obtain ⟨hc, hcn⟩ := hc
    have hblocks : arePlainParagraphs blocks = true := hb
    have hothers : arePlainParagraphs others = true := hc
    rw [arePlainParagraphs, Bool.and_eq_true, List.all_eq_true] at hblocks hothers
    constructor
    · show arePlainParagraphs (blocks ++ others) = true
      rw [arePlainParagraphs, Bool.and_eq_true, List.all_eq_true]
      refine ⟨?_, List.forall_mem_append.mpr ⟨hblocks.2, hothers.2⟩⟩
      cases blocks with
      | nil => exact hothers.1
      | cons _ _ => rfl
    · rw [Block.IsNormal, Block.isNormalList_iff] at hbn hcn ⊢
      exact List.forall_mem_append.mpr ⟨hbn, hcn⟩
  case code.code.refl s language t other =>
    obtain ⟨hb, -⟩ := hb
    obtain ⟨hc, -⟩ := hc
    rw [isRendered, Bool.and_eq_true, areLines] at hb hc
    refine ⟨?_, trivial⟩
    show areLines (s ++ "\n" ++ t) = true
    rw [areLines, String.toList_append, String.toList_append, List.all_append, List.all_append,
      hb.2, hc.2]
    decide

theorem isSolid_of_mem_joined {blocks : List Block} (h : ∀ b ∈ blocks, isSimpleBlock b = true) :
    ∀ b ∈ joined (blocks.map tidy), IsSolid b :=
  forall_mem_joined (fun _ _ _ hb hc hbc => isSolid_join? hb hc hbc)
    (List.forall_mem_map.mpr fun b hb => isSolid_tidy (h b hb))

/-- A solid block is rendered as its HTML. -/
theorem IsSolid.renders {b : Block} (h : IsSolid b) (p : Package) : Renders o p b := by
  obtain ⟨h, -⟩ := h
  cases b with
  | code text language =>
    rw [isRendered, Bool.and_eq_true, Option.isNone_iff_eq_none] at h
    obtain ⟨rfl, hlines⟩ := h
    exact renders_code hlines
  | paragraph | heading | list | quote | rule | table => exact renders_of_isPlainBlock h

/-- A solid block is read from its HTML. -/
theorem IsSolid.reads {b : Block} (h : IsSolid b) : Reads (htmlOf o b) [chomped b] := by
  obtain ⟨h, hn⟩ := h
  cases b with
  | code text language =>
    rw [isRendered, Bool.and_eq_true, Option.isNone_iff_eq_none] at h
    obtain ⟨rfl, -⟩ := h
    exact Html.reads_code text
  | paragraph | heading | list | quote | rule | table => exact reads_htmlOf h hn

theorem IsSolid.isNormal_chomped {b : Block} (h : IsSolid b) : (chomped b).IsNormal := by
  cases b with
  | code text language => trivial
  | paragraph | heading | list | quote | rule | table => exact h.2

theorem reads_solidBlocks {blocks : List Block} (h : ∀ b ∈ blocks, IsSolid b) :
    Reads (htmlOfAll o blocks) (blocks.map chomped) := by
  induction blocks with
  | nil => exact Html.reads_nil
  | cons b blocks ih =>
    rw [List.forall_mem_cons] at h
    exact Html.reads_append h.1.reads (ih h.2)

/-! ### Documents -/

/-- The kind of a block, with the level of a heading and whether a list is numbered. -/
inductive BlockKind where
  | paragraph
  | heading (level : Nat)
  | list (ordered : Bool)
  | quote
  | code
  | rule
  | table
  deriving DecidableEq, Repr

/-- The kind of a block. -/
def BlockKind.of : Block → BlockKind
  | .paragraph _ => .paragraph
  | .heading level _ => .heading level
  | .list ordered _ => .list ordered
  | .quote _ => .quote
  | .code _ _ => .code
  | .rule => .rule
  | .table _ _ _ => .table

theorem kind_tidy (b : Block) : BlockKind.of (tidy b) = .of b := by
  cases b with
  | table header rows alignments => cases header <;> rfl
  | paragraph | heading | list | quote | code | rule => rfl

/-- Whether blocks stay apart is a matter of their kinds. -/
theorem stayApart_eq (b c : Block) : stayApart b c =
    !(BlockKind.of b == .of c && (BlockKind.of b == .code || BlockKind.of b == .quote)) := by
  cases b <;> cases c <;> simp [stayApart, BlockKind.of]

theorem stayApart_tidy (b c : Block) : stayApart (tidy b) (tidy c) = stayApart b c := by
  rw [stayApart_eq, stayApart_eq, kind_tidy, kind_tidy]

/-- What a document looks like from afar: the kinds of its blocks, and their texts. -/
def outline (d : Document) : List (BlockKind × String) :=
  d.blocks.map fun b => (.of b, b.plainText)

section

variable {d : Document} (h : ∀ b ∈ d.blocks, isSimpleBlock b = true)

include h

/-- The rendering of a document of simple blocks means the same as that of its joined blocks. -/
theorem pieces_alike {p : Package}
    (hitems : bodyItems p = (Document.layout o d).items.map LayoutItem.read)
    (hnumbers : Numbers p firstList (Document.layout o d).lists) :
    Html.Alike p.pieces (htmlOfAll o (joined (d.blocks.map tidy))) := by
  have halike : (Document.layout o d).Alike
      (layoutBlocks o firstList (joined (d.blocks.map tidy))) := by
    rw [layoutBlocks_joined]
    exact (layoutBlocks_alike h firstList).2
  rw [halike.lists] at hnumbers
  obtain ⟨pieces, c, hemits, heq⟩ := emits_blocks (c := {})
    (fun b hb => (isSolid_of_mem_joined h b hb).renders p) (isChain_joined _) (by decide) hnumbers
    (fun b _ => Context.mayPrecede_empty b) (ended_nil _ _)
  have hrender := hemits.render_eq.trans heq
  have hsame := Context.render_alike (p := p) halike.items (Context.alike_lists [])
  rw [hrender] at hsame
  rw [Package.pieces, hitems]
  exact hsame

theorem documentOf_pieces {p : Package}
    (hitems : bodyItems p = (Document.layout o d).items.map LayoutItem.read)
    (hnumbers : Numbers p firstList (Document.layout o d).lists) :
    Html.documentOf (Html.nodesOf p.pieces) = asRead d := by
  have hsolid := isSolid_of_mem_joined h
  rw [(pieces_alike h hitems hnumbers).nodesOf_eq, (reads_solidBlocks hsolid).documentOf_eq]
  refine Document.normalize_eq_self (Block.isNormalList_iff.mpr ?_)
  exact List.forall_mem_map.mpr fun b hb => (hsolid b hb).isNormal_chomped

/-- A simple block by itself is read as a block of its kind and with its text. -/
theorem outline_tidy {b : Block} (hb : b ∈ d.blocks) :
    BlockKind.of (chomped (tidy b)) = .of b ∧ (chomped (tidy b)).plainText = b.plainText := by
  have hsimple := h b hb
  cases b with
  | code text language =>
    have hlast := (isPlainCode_iff.mp hsimple).2
    exact ⟨rfl, Html.chompLine_eq_self hlast⟩
  | paragraph xs => exact ⟨rfl, Block.plainText_normalize (.paragraph xs)⟩
  | quote blocks => exact ⟨rfl, Block.plainText_normalize (.quote blocks)⟩
  | list ordered items => exact ⟨rfl, Block.plainText_normalize (.list ordered items)⟩
  | heading | rule | table => cases hsimple

/-- **Blocks keep their number, kinds and texts exactly if those next to each other stay apart.** -/
theorem outline_asRead_iff :
    outline (asRead d) = outline d ↔ d.blocks.IsChain fun a b => stayApart a b = true := by
  have hchain : ((d.blocks.map tidy).IsChain fun a b => stayApart a b = true) ↔
      d.blocks.IsChain fun a b => stayApart a b = true := by
    simp only [List.isChain_map, stayApart_tidy]
  rw [← hchain]
  constructor
  · intro heq
    -- joining makes fewer blocks, if it does anything
    have hlength : (joined (d.blocks.map tidy)).length = (d.blocks.map tidy).length := by
      simpa [outline, asRead] using congrArg List.length heq
    rw [← (length_joined (d.blocks.map tidy)).2 hlength]
    exact isChain_joined _
  · intro hapart
    unfold outline asRead
    rw [joined_eq_self hapart, List.map_map, List.map_map]
    refine List.map_congr_left fun b hb => ?_
    obtain ⟨hkind, htext⟩ := outline_tidy h hb
    exact Prod.ext hkind htext

end

end Interdoc.Docx

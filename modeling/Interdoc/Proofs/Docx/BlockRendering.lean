import Interdoc.Proofs.Docx.Escape
import Interdoc.Proofs.Docx.ListRendering
import Interdoc.Proofs.Docx.TableHtml
import Interdoc.Proofs.Text.Lines

/-!
# Rendering blocks

The blocks of an expressible document are rendered one after the other, each as its HTML.  What one
block leaves open is closed by the next: lists are `Ended`, and the lines of code and the quotes
that are held back are taken up by no block that stays apart from theirs (`MayPrecede`).
-/

namespace Interdoc.Docx

open Interdoc (Inline Block Alignment)
open Html (Piece)
open Context (Emits closeFrames)

variable {o : Options} {p : Package}

/-! ### Held back paragraphs -/

namespace Context

variable {c : Context}

/-- A block takes up nothing that is held back. -/
def MayPrecede (c : Context) : Block → Prop
  | .code _ _ => c.codeLines = []
  | .quote _ => c.quotes = []
  | _ => True

theorem mayPrecede_empty (b : Block) : MayPrecede {} b := by
  cases b <;> first | exact trivial | exact rfl

theorem codeLine_first (h : c.codeLines = []) (line : List Char) :
    c.codeLine line = (c.closing, { codeLines := [line] }) := by
  rw [codeLine]
  split
  · next hquotes =>
    rw [List.isEmpty_iff] at hquotes
    rw [closing, heldBack, h, hquotes]
    rfl
  · rfl

theorem quote_first (h : c.quotes = []) (content : List Piece) :
    c.quote content = (c.closing, { quotes := [content] }) := by
  rw [quote]
  split
  · next hcode =>
    rw [List.isEmpty_iff] at hcode
    rw [closing, heldBack, h, hcode]
    rfl
  · rfl

end Context

open Context (MayPrecede)

/-! ### Code -/

/-- Whether the only control characters of a text are line feeds. -/
def areLines (text : String) : Bool :=
  text.toList.all fun c => c == '\n' || !isControl c

theorem isPlainCode_iff {text : String} :
    isPlainCode text = true ↔ areLines text = true ∧ text.toList.getLast? ≠ some '\n' := by
  rw [isPlainCode, Bool.and_eq_true, bne_iff_ne, areLines]

theorem isPlainText_of_mem_splitOn {text : String} (h : areLines text = true) {line : List Char}
    (hline : line ∈ Text.splitOn '\n' text.toList) : isPlainText (String.ofList line) = true := by
  rw [areLines, List.all_eq_true] at h
  rw [isPlainText, String.toList_ofList, List.all_eq_true]
  intro c hc
  have hchar := h c ((Text.infix_of_mem_splitOn hline).subset hc)
  rw [Bool.or_eq_true, beq_iff_eq] at hchar
  refine hchar.resolve_left ?_
  rintro rfl
  exact Text.not_mem_of_mem_splitOn hline hc

/-- The paragraph for a line of code. -/
def codeParagraph (o : Options) (line : List Char) : WrittenParagraph :=
  { style := some Style.codeBlock
    parts := [.run ⟨{ font := some o.codeFont }, .text (String.ofList line)⟩] }

theorem codeLine_read {line : List Char} (h : isPlainText (String.ofList line) = true) :
    (codeParagraph o line).read.codeLine = line := by
  have hpieces : (codeParagraph o line).segments.map Segment.piece =
      [CodePart.text (Xml.unbroken (String.ofList line))].map CodePart.piece := rfl
  rw [WrittenParagraph.read, hpieces, unbroken_of_isPlainText h, render_pieces,
    unescapeCode_escaped, List.flatMap_singleton]
  exact String.toList_ofList

theorem step_codeLine {line : List Char} (h : isPlainText (String.ofList line) = true)
    (c : Context) : c.step p (codeLine o line).read = c.codeLine line := by
  have hkind : (codeParagraph o line).read.kind = .code := by
    rw [kind_read]
    exact Context.kind_of_style.2.1
  have hstep := Context.step_unnumbered (c := c) (p := p) (q := (codeParagraph o line).read)
    (numbering_of_no_place rfl)
  rw [Context.unnumbered, hkind] at hstep
  refine hstep.trans ?_
  rw [codeLine_read h]

theorem emits_codeLines {lines : List (List Char)}
    (h : ∀ line ∈ lines, isPlainText (String.ofList line) = true) (before : List (List Char)) :
    Emits p { codeLines := before } ((lines.map (codeLine o)).map LayoutItem.read) []
      { codeLines := before ++ lines } := by
  induction lines generalizing before with
  | nil =>
    rw [List.append_nil]
    exact .nil _
  | cons line lines ih =>
    rw [List.forall_mem_cons] at h
    have hrest := ih h.2 (before ++ [line])
    rw [List.append_assoc] at hrest
    exact .cons (step_codeLine h.1 _) hrest

/-- Code is held back, all its lines. -/
theorem emits_code {text : String} (h : areLines text = true) {c : Context}
    (hc : c.codeLines = []) :
    Emits p c (((Text.splitOn '\n' text.toList).map (codeLine o)).map LayoutItem.read) c.closing
      { codeLines := Text.splitOn '\n' text.toList } := by
  have hplain : ∀ line ∈ Text.splitOn '\n' text.toList, isPlainText (String.ofList line) = true :=
    fun _ => isPlainText_of_mem_splitOn h
  obtain ⟨first, rest, hlines⟩ := List.exists_cons_of_ne_nil (Text.splitOn_ne_nil '\n' text.toList)
  rw [hlines] at hplain ⊢
  have hstep : c.step p (codeLine o first).read = (c.closing, { codeLines := [first] }) := by
    rw [step_codeLine (hplain first List.mem_cons_self), Context.codeLine_first hc]
  rw [← List.append_nil c.closing]
  exact .cons hstep (emits_codeLines (fun line hline => hplain line (List.mem_cons_of_mem _ hline))
    [first])

theorem closing_code (text : String) :
    Context.closing { codeLines := Text.splitOn '\n' text.toList } =
      htmlOf o (.code text none) := by
  rw [Context.closing, Context.heldBack, Context.codePieces, if_neg, Text.unlines,
    Text.join_splitOn, String.ofList_toList, htmlOf]
  · simp [Context.quotePieces, Context.closeFrames]
  · simpa using Text.splitOn_ne_nil '\n' text.toList

/-! ### Quotes -/

/-- The content of a quoted paragraph. -/
def quoted : Block → List Piece
  | .paragraph xs => inlinePieces xs
  | _ => []

/-- The item for a paragraph in a quote. -/
def quoteItem (o : Options) : Block → LayoutItem
  | .paragraph xs =>
    .paragraph { style := some Style.blockquote, parts := partsAmong o {} xs }
  | _ => .paragraph {}

theorem layoutStyled_paragraphs {blocks : List Block} (h : ∀ b ∈ blocks, isPlainParagraph b = true)
    (next depth : Nat) : layoutStyled o next depth Style.blockquote blocks =
      ⟨blocks.map (quoteItem o), []⟩ := by
  induction blocks with
  | nil => rfl
  | cons b blocks ih =>
    rw [List.forall_mem_cons] at h
    obtain ⟨xs, rfl, -⟩ := exists_of_isPlainParagraph h.1
    rw [layoutStyled_cons]
    exact (congrArg _ (ih h.2)).trans rfl

theorem step_quote {b : Block} (h : isPlainParagraph b = true) (c : Context) :
    c.step p (quoteItem o b).read = c.quote (quoted b) := by
  obtain ⟨xs, rfl, hxs⟩ := exists_of_isPlainParagraph h
  let q : WrittenParagraph := { style := some Style.blockquote, parts := partsAmong o {} xs }
  have hkind : q.read.kind = .quote := by
    rw [kind_read]
    exact Context.kind_of_style.2.2.1
  have hstep := Context.step_unnumbered (c := c) (p := p) (q := q.read) (numbering_of_no_place rfl)
  rw [Context.unnumbered, hkind] at hstep
  refine hstep.trans ?_
  rw [(plain_spec o hxs (p := q) rfl).2, quoted]

theorem emits_quotes {blocks : List Block} (h : ∀ b ∈ blocks, isPlainParagraph b = true)
    (before : List (List Piece)) :
    Emits p { quotes := before } ((blocks.map (quoteItem o)).map LayoutItem.read) []
      { quotes := before ++ blocks.map quoted } := by
  induction blocks generalizing before with
  | nil => simpa only [List.map_nil, List.append_nil] using Emits.nil _
  | cons b blocks ih =>
    rw [List.forall_mem_cons] at h
    have hrest := ih h.2 (before ++ [quoted b])
    rw [List.append_assoc] at hrest
    exact .cons (step_quote h.1 _) hrest

/-- A quote is held back, all its paragraphs. -/
theorem emits_quote {blocks : List Block} (h : arePlainParagraphs blocks = true) {c : Context}
    (hc : c.quotes = []) :
    Emits p c ((blocks.map (quoteItem o)).map LayoutItem.read) c.closing
      { quotes := blocks.map quoted } := by
  rw [arePlainParagraphs, Bool.and_eq_true, List.all_eq_true] at h
  obtain ⟨hne, hplain⟩ := h
  cases blocks with
  | nil => cases hne
  | cons b blocks =>
    rw [List.forall_mem_cons] at hplain
    have hstep : c.step p (quoteItem o b).read = (c.closing, { quotes := [quoted b] }) := by
      rw [step_quote hplain.1, Context.quote_first hc]
    rw [← List.append_nil c.closing]
    exact .cons hstep (emits_quotes hplain.2 [quoted b])

theorem closing_quote {blocks : List Block} (h : arePlainParagraphs blocks = true) :
    Context.closing { quotes := blocks.map quoted } = htmlOf o (.quote blocks) := by
  rw [arePlainParagraphs, Bool.and_eq_true, List.all_eq_true] at h
  have hcontent : (blocks.map quoted).flatMap (Html.element "p") = htmlOfAll o blocks := by
    rw [List.flatMap_map, htmlOfAll_eq_flatMap]
    refine List.flatMap_congr fun b hb => ?_
    obtain ⟨xs, rfl, -⟩ := exists_of_isPlainParagraph (h.2 b hb)
    rfl
  have hne : (blocks.map quoted).isEmpty = false := by simpa using h.1
  rw [Context.closing, Context.heldBack, Context.quotePieces, hcontent, hne, htmlOf]
  simp [Context.codePieces, Context.closeFrames]

/-! ### Blocks -/

/-- A block is rendered as its HTML, from every context that may precede it and in which all lists
that are open have ended.  What it leaves open is ended, and taken up by no block that stays apart
from it. -/
structure Renders (o : Options) (p : Package) (b : Block) : Prop where
  emits : ∀ {next : Nat} {c : Context}, 0 < next → Numbers p next (layoutBlock o next 0 b).lists →
    c.MayPrecede b → Ended 0 next c.lists →
    ∃ pieces c',
      Emits p c ((layoutBlock o next 0 b).items.map LayoutItem.read) pieces c' ∧
      pieces ++ c'.closing = c.closing ++ htmlOf o b ∧
      Ended 0 (next + (layoutBlock o next 0 b).lists.length) c'.lists ∧
      ∀ b', stayApart b b' = true → c'.MayPrecede b'

/-- A block of one item that stands on its own. -/
theorem renders_standalone {b : Block} {item : LayoutItem}
    (hlayout : ∀ next, layoutBlock o next 0 b = .ofItem item)
    (hstep : ∀ c, Context.step p c item.read = (c.closing ++ htmlOf o b, {})) : Renders o p b where
  emits {next c} _ _ _ _ := by
    rw [hlayout]
    exact ⟨_, {}, .single (hstep c), List.append_nil _, ended_nil _ _,
      fun b' _ => Context.mayPrecede_empty b'⟩

theorem renders_simple {b : Block} {q : WrittenParagraph}
    (hlayout : ∀ next, layoutBlock o next 0 b = .ofItem (.paragraph q)) (hplace : q.place = none)
    (hkind : q.read.kind ∉ [.code, .quote, .continuation])
    (hhtml : Context.simplePieces q.read.kind q.read.content = htmlOf o b) : Renders o p b :=
  renders_standalone hlayout fun c => by
    rw [← hhtml, ← Context.unnumbered_simple hkind,
      ← Context.step_unnumbered (p := p) (numbering_of_no_place hplace)]
    rfl

theorem renders_paragraph {xs : List Inline} (h : isPlainInlines xs = true) :
    Renders o p (.paragraph xs) := by
  let q : WrittenParagraph := { parts := partsAmong o {} xs }
  have hkind : q.read.kind = .normal := by
    rw [kind_read]
    exact Context.kind_of_style.1
  refine renders_simple (q := q) (fun _ => rfl) rfl (by rw [hkind]; decide) ?_
  rw [hkind, (plain_spec o h (p := q) rfl).2]
  rfl

theorem renders_heading {level : Nat} {xs : List Inline} (hlevel : 1 ≤ level ∧ level ≤ 6)
    (h : isPlainInlines xs = true) : Renders o p (.heading level xs) := by
  let q : WrittenParagraph := { style := some (Style.heading level), parts := partsAmong o {} xs }
  have hkind : q.read.kind = .heading level := by
    rw [kind_read]
    exact Context.kind_of_heading hlevel.1 hlevel.2
  refine renders_simple (q := q) (fun _ => rfl) rfl (by simp [hkind]) ?_
  rw [hkind, (plain_spec o h (p := q) rfl).2]
  rfl

theorem renders_rule : Renders o p .rule := by
  let q : WrittenParagraph := { style := some Style.horizontalLine, parts := [.run ⟨{}, .text ""⟩] }
  have hkind : q.read.kind = .rule := by
    rw [kind_read]
    exact Context.kind_of_style.2.2.2.1
  refine renders_simple (q := q) (fun _ => rfl) rfl (by rw [hkind]; decide) ?_
  rw [hkind]
  rfl

theorem renders_table (header : Option (List (List Block))) (rows : List (List (List Block)))
    (alignments : Option (List Alignment)) : Renders o p (.table header rows alignments) :=
  renders_standalone (fun _ => rfl) fun _ => rfl

theorem renders_code {text : String} (h : areLines text = true) :
    Renders o p (.code text none) where
  emits _ _ hc _ := by
    refine ⟨_, _, emits_code h hc, ?_, ended_nil _ _, fun b' hb' => ?_⟩
    · rw [closing_code (o := o)]
    · cases b' <;> first | exact trivial | exact rfl | cases hb'

theorem renders_quote {blocks : List Block} (h : arePlainParagraphs blocks = true) :
    Renders o p (.quote blocks) where
  emits {next c} _ _ hc _ := by
    have hplain := h
    rw [arePlainParagraphs, Bool.and_eq_true, List.all_eq_true] at hplain
    rw [layoutBlock, layoutStyled_paragraphs hplain.2]
    refine ⟨_, _, emits_quote h hc, ?_, ended_nil _ _, fun b' hb' => ?_⟩
    · rw [closing_quote (o := o) h]
    · cases b' <;> first | exact trivial | exact rfl | cases hb'

theorem renders_list {b : Block} (h : isPlainList (deepestLevel + 1) b = true) :
    Renders o p b where
  emits {next c} hnext hnumbers _ hended := by
    have hlist : RendersAt o p 0 b := rendersAt_of_isPlainList h (by omega)
    obtain ⟨pieces, ended, hemits, hended', heq⟩ := hlist.emits hnext hnumbers
      (List.append_nil _).symm hended (List.forall_mem_nil _)
    rw [List.append_nil] at hemits
    exact ⟨pieces, _, hemits, heq, hended', fun b' _ => by
      cases b' <;> first | exact trivial | exact rfl⟩

/-- **Every block that keeps its form is rendered as its HTML.** -/
theorem renders_of_isPlainBlock {b : Block} (h : isPlainBlock b = true) : Renders o p b := by
  cases b with
  | paragraph xs => exact renders_paragraph h
  | heading level xs =>
    simp only [isPlainBlock, Bool.and_eq_true, decide_eq_true_eq] at h
    exact renders_heading h.1 h.2
  | list ordered items => exact renders_list h
  | quote blocks => exact renders_quote h
  | code text language =>
    rw [isPlainBlock, Bool.and_eq_true, Option.isNone_iff_eq_none] at h
    obtain ⟨rfl, h⟩ := h
    exact renders_code (isPlainCode_iff.mp h).1
  | rule => exact renders_rule
  | table header rows alignments => exact renders_table header rows alignments

/-! ### Documents -/

/-- Blocks that stay apart are rendered one after the other, if each of them is rendered. -/
theorem emits_blocks {blocks : List Block} (h : ∀ b ∈ blocks, Renders o p b)
    (hapart : blocks.IsChain fun a b => stayApart a b = true) {next : Nat} (hnext : 0 < next)
    (hnumbers : Numbers p next (layoutBlocks o next blocks).lists) {c : Context}
    (hfirst : ∀ b ∈ blocks.head?, c.MayPrecede b) (hended : Ended 0 next c.lists) :
    ∃ pieces c', Emits p c ((layoutBlocks o next blocks).items.map LayoutItem.read) pieces c' ∧
      pieces ++ c'.closing = c.closing ++ htmlOfAll o blocks := by
  induction blocks generalizing next c with
  | nil => exact ⟨[], c, .nil c, (List.append_nil _).symm⟩
  | cons b blocks ih =>
    rw [List.forall_mem_cons] at h
    rw [List.isChain_cons] at hapart
    rw [layoutBlocks] at hnumbers ⊢
    obtain ⟨ps, between, hps, heq, hbetween, hafter⟩ :=
      h.1.emits hnext hnumbers.left (hfirst b rfl) hended
    obtain ⟨qs, c', hqs, heq'⟩ := ih h.2 hapart.2 (by omega) hnumbers.right
      (fun b' hb' => hafter b' (hapart.1 b' hb')) hbetween
    refine ⟨ps ++ qs, c', ?_, ?_⟩
    · rw [Layout.items_append, List.map_append]
      exact hps.append hqs
    · rw [List.append_assoc, heq', ← List.append_assoc, heq, List.append_assoc, htmlOfAll]

/-- **A document is rendered as the HTML of its blocks.** -/
theorem pieces_eq {d : Document} (h : Expressible d)
    (hitems : bodyItems p = (Document.layout o d).items.map LayoutItem.read)
    (hnumbers : Numbers p firstList (Document.layout o d).lists) :
    p.pieces = htmlOfAll o d.blocks := by
  obtain ⟨pieces, c, hemits, heq⟩ := emits_blocks (c := {})
    (fun b hb => renders_of_isPlainBlock (h.blocks b hb)) h.apart (by decide) hnumbers
    (fun b _ => Context.mayPrecede_empty b) (ended_nil _ _)
  rw [Package.pieces, hitems]
  exact hemits.render_eq.trans heq

end Interdoc.Docx

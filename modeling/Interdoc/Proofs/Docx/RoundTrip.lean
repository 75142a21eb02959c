import Interdoc.Docx.Reader
import Interdoc.Proofs.Docx.BlockRendering
import Interdoc.Proofs.Docx.NullCharacters
import Interdoc.Proofs.Docx.Opening

/-!
# Round trips through packages

A document that a package can express is found again in the package that it is written to.

A document `GivesBack` another one if that is what is read from the package that it is written to.
The way leads over octets and over the text of HTML, and both are taken for what they are: an
archive has a length that it can record, and HTML is parsed as its tags say.  So it is enough to
know what the rendered pieces denote (`givesBack_of_documentOf_eq`).  Documents with the same layout
give back the same, whatever they are (`givesBack_congr`).

HTML is parsed as its tags say if no null character is in it, so a document without null characters
is read as what it gives back (`GivesBack.parse?_write`), and what a package can express as what it
is (`Expressible.parse?_write`).
-/

namespace Interdoc.Docx

open Interdoc (Inline Block Alignment)
open Html (Piece Reads)

variable {o : Options}

/-! ### Layouts without links -/

/-- All items of a layout are plain. -/
def Layout.IsPlain (l : Layout) : Prop :=
  ∀ item ∈ l.items, item.IsPlain

theorem Layout.IsPlain.append {l l' : Layout} (h : l.IsPlain) (h' : l'.IsPlain) :
    (l ++ l').IsPlain :=
  List.forall_mem_append.mpr ⟨h, h'⟩

theorem Layout.isPlain_ofItem {item : LayoutItem} (h : item.IsPlain) : (ofItem item).IsPlain :=
  List.forall_mem_singleton.mpr h

theorem isPlain_paragraph (base : WrittenParagraph) {xs : List Inline}
    (h : isPlainInlines xs = true) : (Layout.paragraph o base xs).IsPlain :=
  Layout.isPlain_ofItem (plain_spec o h (p := { base with parts := partsAmong o {} xs }) rfl).1

theorem isPlain_layoutStyled {next depth : Nat} {style : String} {blocks : List Block}
    (h : ∀ b ∈ blocks, ∀ next, (styledBlock o next depth style b).IsPlain) :
    (layoutStyled o next depth style blocks).IsPlain := by
  induction blocks generalizing next with
  | nil => rintro item ⟨⟩
  | cons b blocks ih =>
    rw [List.forall_mem_cons] at h
    rw [layoutStyled_cons]
    exact (h.1 next).append (ih h.2)

theorem isPlain_styledBlock {next depth : Nat} {style : String} {b : Block}
    (h : isPlainParagraph b = true) : (styledBlock o next depth style b).IsPlain := by
  obtain ⟨xs, rfl, hxs⟩ := exists_of_isPlainParagraph h
  exact isPlain_paragraph _ hxs

/-- Items that begin with a paragraph. -/
theorem isPlain_layoutItems {next depth : Nat} {place : ListPlace} {items : List (List Block)}
    (h : ∀ blocks ∈ items, ∃ xs rest, blocks = .paragraph xs :: rest ∧ isPlainInlines xs = true ∧
      ∀ b ∈ rest, ∀ next, (styledBlock o next depth Style.listParagraph b).IsPlain) :
    (layoutItems o next depth place items).IsPlain := by
  induction items generalizing next with
  | nil => rintro item ⟨⟩
  | cons blocks items ih =>
    rw [List.forall_mem_cons] at h
    obtain ⟨⟨xs, rest, rfl, hxs, hrest⟩, hitems⟩ := h
    rw [layoutItems_cons]
    exact ((isPlain_paragraph _ hxs).append (isPlain_layoutStyled hrest)).append (ih hitems)

theorem isPlain_layoutList {levels next depth : Nat} {b : Block}
    (h : isPlainList levels b = true) : (layoutBlock o next depth b).IsPlain := by
  induction levels generalizing next depth b with
  | zero => cases h
  | succ levels ih =>
    obtain ⟨ordered, items, rfl, -, hitems⟩ := exists_of_isPlainList h
    refine isPlain_layoutItems fun blocks hblocks => ?_
    obtain ⟨xs, ps, ls, rfl, hxs, hps, hls⟩ := hitems blocks hblocks
    refine ⟨xs, ps ++ ls, rfl, hxs, List.forall_mem_append.mpr
      ⟨fun b hb next => isPlain_styledBlock (hps b hb), fun l hl next => ?_⟩⟩
    have hlist := hls l hl
    cases l with
    | paragraph => cases levels <;> cases hlist
    | heading | list | quote | code | rule | table => exact ih hlist

theorem isPlain_item {style : String} {r : WrittenRun} (h : r.properties.color = none) :
    (LayoutItem.paragraph { style := some style, parts := [.run r] }).IsPlain := by
  refine ⟨[r], rfl, List.forall_mem_singleton.mpr ?_⟩
  rw [RunProperties.HasPlainColor, h]
  rintro c ⟨⟩

/-- The layout of a block that keeps its form has no links. -/
theorem isPlain_layoutBlock {next : Nat} {b : Block} (h : isPlainBlock b = true)
    (hn : b.IsNormal) : (layoutBlock o next 0 b).IsPlain := by
  cases b with
  | paragraph xs => exact isPlain_paragraph {} h
  | heading level xs =>
    rw [isPlainBlock, Bool.and_eq_true] at h
    exact isPlain_paragraph _ h.2
  | list ordered items => exact isPlain_layoutList h
  | quote blocks =>
    rw [isPlainBlock, arePlainParagraphs, Bool.and_eq_true, List.all_eq_true] at h
    exact isPlain_layoutStyled fun b hb next => isPlain_styledBlock (h.2 b hb)
  | code text language =>
    intro item hitem
    obtain ⟨line, -, rfl⟩ := List.mem_map.mp hitem
    exact isPlain_item rfl
  | rule => exact Layout.isPlain_ofItem (isPlain_item rfl)
  | table header rows alignments => exact Layout.isPlain_ofItem (reads_plainTable o h hn).1

theorem isPlain_layoutBlocks {next : Nat} {blocks : List Block}
    (h : ∀ b ∈ blocks, isPlainBlock b = true) (hn : ∀ b ∈ blocks, b.IsNormal) :
    (layoutBlocks o next blocks).IsPlain := by
  induction blocks generalizing next with
  | nil => rintro item ⟨⟩
  | cons b blocks ih =>
    rw [List.forall_mem_cons] at h hn
    exact (isPlain_layoutBlock h.1 hn.1).append (ih h.2 hn.2)

/-! ### Reading the HTML -/

theorem headingTag_spec {level : Nat} (h : 1 ≤ level ∧ level ≤ 6) :
    Html.blockTags.contains ("h" ++ toString level) = true ∧
      Html.headingLevel? ("h" ++ toString level) = some level := by
  obtain ⟨hmin, hmax⟩ := h
  interval_cases level <;> decide

/-- **Every block that keeps its form is read from its HTML.** -/
theorem reads_htmlOf {b : Block} (h : isPlainBlock b = true) (hn : b.IsNormal) :
    Reads (htmlOf o b) [b] := by
  cases b with
  | paragraph xs => exact reads_plainParagraph h hn
  | heading level xs =>
    simp only [isPlainBlock, Bool.and_eq_true, decide_eq_true_eq] at h
    obtain ⟨htag, hlevel⟩ := headingTag_spec h.1
    exact Html.reads_heading htag hlevel (readsInlines_plain h.2 hn)
  | list ordered items => exact reads_plainList h hn
  | quote blocks => exact Html.reads_quote (reads_plainParagraphs h hn)
  | code text language =>
    rw [isPlainBlock, Bool.and_eq_true, Option.isNone_iff_eq_none, isPlainCode, Bool.and_eq_true,
      bne_iff_ne] at h
    obtain ⟨rfl, -, hlast⟩ := h
    have hreads := Html.reads_code text
    rwa [Html.chompLine_eq_self hlast] at hreads
  | rule => exact Html.reads_rule
  | table header rows alignments => exact (reads_plainTable o h hn).2

/-! ### Documents -/

theorem Expressible.isNormal {d : Document} (h : Expressible d) : ∀ b ∈ d.blocks, b.IsNormal :=
  Block.isNormalList_iff.mp ((Document.isNormal_iff d).mpr h.normal)

/-- The nodes of a document's HTML are read as the document. -/
theorem documentOf_htmlOfAll {d : Document} (h : Expressible d) :
    Html.documentOf (Html.nodesOf (htmlOfAll o d.blocks)) = d := by
  have hreads : Reads (htmlOfAll o d.blocks) d.blocks :=
    reads_htmlOfAll fun b hb => reads_htmlOf (h.blocks b hb) (h.isNormal b hb)
  rw [hreads.documentOf_eq]
  exact h.normal

/-- There is no text in a package without items. -/
theorem rawText_of_items_eq_nil {l : Layout} (hl : l.items = []) {p : Package}
    (h : l.package? = .ok p) : p.rawText = [] := by
  obtain ⟨relationships, numbering, hdocument, -⟩ := l.exists_of_package?_eq h
  have hmarkup : l.documentMarkup = Layout.empty.documentMarkup := by
    rw [Layout.documentMarkup, Layout.documentMarkup, Layout.bodyMarkup, hl]
    rfl
  have hempty : Layout.empty.documentMarkup.node? = .ok
      (.element "document" [("w", Layout.mainSpace), ("r", Layout.relationshipSpace)]
        [.element "body" [] [.element "sectPr" [] []]]) := rfl
  rw [hmarkup, hempty] at hdocument
  rw [Package.rawText, ← Except.ok.inj hdocument]
  rfl

/-- A package is read as what its pieces denote, if that holds a block or the package no item. -/
theorem toDocument_eq_of_documentOf_eq {l : Layout} {p : Package} {d : Document}
    (hp : l.package? = .ok p) (hempty : d.blocks = [] → l.items = [])
    (hread : Html.documentOf (Html.nodesOf p.pieces) = d)
    (hparse : Html.bodyOf (Html.parse p.html) = Html.nodesOf p.pieces) : p.toDocument = d := by
  have hdocument : Html.readDocument p.html = d := by rw [Html.readDocument, hparse, hread]
  rw [Package.toDocument, documentOf, hdocument]
  -- the bare text is only looked at if nothing else is there, and then it is empty
  split
  · next hblocks =>
    obtain ⟨blocks⟩ := d
    obtain rfl : blocks = [] := List.isEmpty_iff.mp hblocks
    rw [rawText_of_items_eq_nil (hempty rfl) hp]
    rfl
  · rfl

theorem items_layout_eq_nil {d : Document} (h : d.blocks = []) :
    (Document.layout o d).items = [] := by
  rw [Document.layout, h]
  rfl

/-- An expressible document is found in its package. -/
theorem toDocument_eq {d : Document} (h : Expressible d) {p : Package}
    (hp : (Document.layout o d).package? = .ok p) (hpieces : p.pieces = htmlOfAll o d.blocks)
    (hparse : Html.bodyOf (Html.parse p.html) = Html.nodesOf p.pieces) : p.toDocument = d :=
  toDocument_eq_of_documentOf_eq hp items_layout_eq_nil
    (by rw [hpieces, documentOf_htmlOfAll h]) hparse

/-- A document with a block of each kind. -/
def reportDocument : Document :=
  ⟨[.heading 2 [.text "Report"], .paragraph [.text "a < b & c"], .paragraph [],
    .quote [.paragraph [.text "said"], .paragraph [.text "and done"]],
    .code "if x:\n\n  y <br>" none, .rule, .code "" none,
    .list true
      [[.paragraph [.text "one"], .paragraph [.text "more"],
        .list false [[.paragraph [.text "inner"]], [.paragraph []]],
        .list true [[.paragraph [.text "other"]]]],
       [.paragraph [.text "two"]]],
    .list true [[.paragraph [.text "apart"]]],
    .table (some [[.paragraph [.text "x"]], [.paragraph [], .paragraph [.text "y"]]])
      [[[.paragraph [.text "1"]], [.paragraph [.text "2"]]]] (some [.left, .center])]⟩

variable {d d' e : Document}

/-- What a document is read as after it was written.  There is a package with its layout in it, and
the written octets are opened as it, if an archive has room for them; if they are, and the HTML that
the package is rendered to is parsed as its tags say, then the other document is read. -/
def GivesBack (o : Options) (d e : Document) : Prop :=
  ∃ p, (Document.layout o d).package? = .ok p ∧
    ((write o d).length < 2 ^ 32 → Package.open? (write o d) = .ok p) ∧
    (Package.open? (write o d) = .ok p →
      Html.bodyOf (Html.parse p.html) = Html.nodesOf p.pieces →
      parse? (write o d) = .ok e)

/-- **A document gives back what its pieces denote**; only a body without items may denote
nothing. -/
theorem givesBack_of_documentOf_eq (hplain : (Document.layout o d).IsPlain)
    (hempty : e.blocks = [] → (Document.layout o d).items = [])
    (hread : ∀ p : Package, bodyItems p = (Document.layout o d).items.map LayoutItem.read →
      Numbers p firstList (Document.layout o d).lists →
      Html.documentOf (Html.nodesOf p.pieces) = e) : GivesBack o d e := by
  obtain ⟨p, hp, hitems, hnumbers⟩ := Layout.exists_package hplain
  refine ⟨p, hp, open?_write (fun item hitem => (hplain item hitem).hasPlainColors) hp,
    fun hopen hparse => ?_⟩
  rw [parse?, hopen]
  exact congrArg Except.ok
    (toDocument_eq_of_documentOf_eq hp hempty (hread p hitems hnumbers) hparse)

/-- A document that a package can express gives back itself. -/
theorem Expressible.givesBack (h : Expressible d) : GivesBack o d d := by
  refine givesBack_of_documentOf_eq (isPlain_layoutBlocks h.blocks h.isNormal)
    items_layout_eq_nil fun p hitems hnumbers => ?_
  rw [pieces_eq h hitems hnumbers, documentOf_htmlOfAll h]

/-- **What a document gives back is what is read**, if its layout has no links, there is no null
character in it, and an archive has room for it. -/
theorem GivesBack.parse?_write (h : GivesBack o d e) (hplain : (Document.layout o d).IsPlain)
    (hnulls : blocksHaveNoNulls d.blocks = true) (hlength : (write o d).length < 2 ^ 32) :
    parse? (write o d) = .ok e := by
  obtain ⟨p, hp, hopen, hread⟩ := h
  exact hread (hopen hlength) (Layout.bodyOf_parse_html hplain (hasNoNulls_layout hnulls) hp)

/-- **What a package can express is read as it was written**, if an archive has room for it. -/
theorem Expressible.parse?_write (h : Expressible d) (hlength : (write o d).length < 2 ^ 32) :
    parse? (write o d) = .ok d := by
  have hnulls : blocksHaveNoNulls d.blocks = true :=
    blocksHaveNoNulls_iff.mpr fun b hb => blockHasNoNulls_of_isPlainBlock (h.blocks b hb)
  exact h.givesBack.parse?_write (isPlain_layoutBlocks h.blocks h.isNormal) hnulls hlength

/-- Documents with the same layout are written to the same octets, and give back the same. -/
theorem givesBack_congr (h : Document.layout o d = Document.layout o d') :
    GivesBack o d e ↔ GivesBack o d' e := by
  rw [GivesBack, GivesBack, write_eq, write_eq, h]

end Interdoc.Docx

import Interdoc.Docx.Reader
import Interdoc.Proofs.Docx.Links
import Interdoc.Proofs.Docx.NullCharacters
import Interdoc.Proofs.Docx.Opening

/-!
# Formatting through packages

A paragraph of any inlines, nested in any way, is found again in its package with the same
characters and line breaks, and each of them in the look that it had, as far as a package says what
it is (`Glyph.IsKept`).
-/

namespace Interdoc.Docx

open Interdoc (Inline)
open Html (Nesting)

variable {o : Options}

/-! ### Kept glyphs -/

/-- A glyph is found as another in a package: the same character, in the same look.  In a link
nothing is said about underlines, and code is found only if its font is known to be monospaced. -/
structure Glyph.IsKept (o : Options) (written found : Glyph) : Prop where
  shown : found.shown = written.shown
  bold : found.look.bold = written.look.bold
  italic : found.look.italic = written.look.italic
  href : found.look.href = written.look.href
  underline : written.look.href = none → found.look.underline = written.look.underline
  code : written.look.href = none ∨ written.look.code = false ∨
    RunFormat.isMonospace o.codeFont = true → found.look.code = written.look.code

theorem Glyph.isKept_read (g : Glyph) : g.IsKept o (g.read o) := by
  obtain ⟨shown, bold, italic, underline, code, href⟩ := g
  cases href with
  | none => exact ⟨rfl, rfl, rfl, rfl, fun _ => rfl, fun _ => rfl⟩
  | some target =>
    refine ⟨rfl, rfl, rfl, rfl, (fun h => nomatch h), ?_⟩
    rintro (h | rfl | hfont)
    · cases h
    · rfl
    · change (code && RunFormat.isMonospace (Xml.unbroken o.codeFont)) = code
      rw [RunFormat.isMonospace_unbroken hfont, Bool.and_true]

/-! ### Paragraphs -/

/-- The paragraph that inlines are written as. -/
def inlineParagraph (o : Options) (xs : List Inline) : WrittenParagraph :=
  { parts := partsAmong o {} xs }

/-- **What a written paragraph is rendered as shows its glyphs**, as far as they are found. -/
theorem exists_nodes_readParts {xs : List Inline} (h : havePlainTexts xs = true) :
    ∃ nodes, Html.nodesOf (Html.element "p" (readParts [] (partsAmong o {} xs))) =
        [.element "p" [] nodes] ∧
      nodeGlyphs {} nodes = (glyphsAmong {} xs).map (Glyph.read o) := by
  let inside : Nesting := ⟨[⟨"p", [], []⟩], []⟩
  have hstart : Within {} inside.opened [] [] inside := ⟨rfl, rfl⟩
  obtain ⟨hopened, hglyphs⟩ := within_readParts (List.forall_mem_nil _)
    (isFormatted_partsAmong {} rfl xs) hstart
  refine ⟨(inside.run (readParts [] (partsAmong o {} xs))).reversed.reverse, ?_, ?_⟩
  · have hrun : Nesting.run ⟨[], []⟩ (Html.element "p" (readParts [] (partsAmong o {} xs))) =
        (inside.run (readParts [] (partsAmong o {} xs))).step (.finish "p") := by
      rw [Html.element, List.cons_append, Nesting.run_cons, Nesting.run_append]
      rfl
    rw [Html.nodesOf, hrun, Nesting.step, hopened]
    rfl
  · rw [hglyphs, List.nil_append, List.flatMap_nil, List.nil_append]
    exact glyphs_partsAmong {} rfl xs h

theorem hasPlainColors_inlineParagraph
    (ho : '&' ∉ o.linkColor.toList ∧ '"' ∉ o.linkColor.toList) (xs : List Inline) :
    (inlineParagraph o xs).HasPlainColors := fun part hpart r hr =>
  (isFormatted_partsAmong {} rfl xs part hpart r hr).hasPlainColor ho

theorem kind_inlineParagraph (o : Options) (xs : List Inline) (p : Package) :
    (Paragraph.ofNode p ((inlineParagraph o xs).node 1)).kind = .normal := by
  rw [Paragraph.ofNode, WrittenParagraph.styleOf_node]
  exact (by decide : ParagraphKind.ofStyle (Xml.unbroken "") = .normal)

/-- **The package of a paragraph is parsed as what it says**, with its links, if there is no null
character in the inlines. -/
theorem bodyOf_parse_inlineParagraph
    (ho : '&' ∉ o.linkColor.toList ∧ '"' ∉ o.linkColor.toList) {xs : List Inline}
    (h : inlinesHaveNoNulls xs = true) {p : Package}
    (hp : (Document.layout o ⟨[.paragraph xs]⟩).package? = .ok p) :
    Html.bodyOf (Html.parse p.html) = Html.nodesOf p.pieces := by
  obtain ⟨p', hp', hitems, htargets⟩ :=
    Layout.exists_linkedPackage (hasPlainColors_inlineParagraph ho xs)
  obtain rfl : p' = p := Except.ok.inj (hp'.symm.trans hp)
  have havoids {c : Char} (hc : isReplaced c = true)
      (h : ∀ part ∈ partsAmong o {} xs, part.Avoids c) : c ∉ p'.html := by
    refine not_mem_html hc ?_
    rw [hitems]
    refine List.forall_mem_singleton.mpr ⟨?_, fun hcode => ?_⟩
    · show ∀ piece ∈ contentOf p' ((inlineParagraph o xs).node 1), _
      rw [contentOf_node htargets]
      exact avoids_readParts h (List.forall_mem_nil _)
    · rw [kind_inlineParagraph] at hcode
      cases hcode
  exact bodyOf_parse_html p' (havoids (by decide) (avoids_partsAmong {} h))
    (havoids (by decide) fun part _ => part.avoids_return)

/-- The document of a paragraph alone. -/
theorem documentOf_paragraph (nodes : List Html.Node) : Html.documentOf [.element "p" [] nodes] =
    ⟨[.paragraph (Inline.normalizeList (Html.inlinesAmong nodes))]⟩ := by
  have hempty : Html.gathered [] = [] := rfl
  rw [Html.documentOf, Html.blocksOf, Html.blocksFrom, if_pos (by decide), Html.blockOf, if_pos rfl,
    Html.blocksFrom, hempty]
  simp only [List.nil_append, List.append_nil]
  rfl

/-- Inlines of each kind, nested in several ways. -/
def mixedInlines : List Inline :=
  [.strong [.text "a", .emphasis [.code "b", .lineBreak, .text "c"]], .code "d",
    .underline [.strong [.link "x" [.text "e", .code "f", .underline [.link "y" [.text "<"]]]],
      .image "i.png" (some "g")], .code "", .link "z" [], .text "h", .image "j" none]

end Interdoc.Docx

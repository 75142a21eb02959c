import Interdoc.Proofs.Docx.PlainHtml
import Interdoc.Proofs.Docx.Runs

/-!
# Characters and their looks

A sequence of inlines shows characters and line breaks, each with a look: what it is set in, and
the target of the link around it.  `glyphsAmong` lists them, so that sequences of different nesting
can be compared.

The parts of a written paragraph have glyphs too, those that their runs are read as, and they are
the glyphs of the inlines that were written (`glyphs_partsAmong`) up to what a package does not say:
a link underlines all that is in it, and code in a link is known by its font alone (`Look.read`).
-/

namespace Interdoc.Docx

open Interdoc (Inline)
open Xml (unbroken)

/-! ### Looks -/

/-- What a character is set in. -/
structure Look where
  bold : Bool := false
  italic : Bool := false
  underline : Bool := false
  code : Bool := false
  /-- The target of the outermost link around the character. -/
  href : Option String := none
  deriving DecidableEq, Repr

/-- A character, or a line break, with its look. -/
structure Glyph where
  shown : Option Char
  look : Look
  deriving DecidableEq, Repr

/-- The glyphs of a text. -/
def textGlyphs (k : Look) (s : String) : List Glyph :=
  s.toList.map fun c => ⟨some c, k⟩

mutual

/-- The glyphs of an inline inside of something that gives them a look.  An image shows the text
that stands for it. -/
def glyphsOf (k : Look) : Inline → List Glyph
  | .text s => textGlyphs k s
  | .strong inlines => glyphsAmong { k with bold := true } inlines
  | .emphasis inlines => glyphsAmong { k with italic := true } inlines
  | .underline inlines => glyphsAmong { k with underline := true } inlines
  | .code s => textGlyphs { k with code := true } s
  | .lineBreak => [⟨none, k⟩]
  | .link href inlines => glyphsAmong { k with href := k.href.or (some href) } inlines
  | .image src alt => textGlyphs k (imageText src alt)

/-- The glyphs of a sequence of inlines. -/
def glyphsAmong (k : Look) : List Inline → List Glyph
  | [] => []
  | i :: rest => glyphsOf k i ++ glyphsAmong k rest

end

example : glyphsAmong {} [.strong [.text "a", .link "x" [.code "b", .lineBreak]]] =
    [⟨some 'a', { bold := true }⟩, ⟨some 'b', { bold := true, code := true, href := some "x" }⟩,
      ⟨none, { bold := true, href := some "x" }⟩] := by decide

theorem textGlyphs_append (k : Look) (s t : String) :
    textGlyphs k (s ++ t) = textGlyphs k s ++ textGlyphs k t := by
  rw [textGlyphs, String.toList_append, List.map_append]
  rfl

theorem glyphsAmong_append (k : Look) (xs ys : List Inline) :
    glyphsAmong k (xs ++ ys) = glyphsAmong k xs ++ glyphsAmong k ys := by
  induction xs with
  | nil => rfl
  | cons x xs ih => rw [List.cons_append, glyphsAmong, glyphsAmong, ih, List.append_assoc]

/-! ### Normal forms -/

theorem glyphsAmong_cons (k : Look) (i : Inline) (rest : List Inline) :
    glyphsAmong k (Inline.cons i rest) = glyphsOf k i ++ glyphsAmong k rest := by
  rcases i.isText_eq_false_or with hi | ⟨s, rfl⟩
  · rw [Inline.cons_of_not_isText hi, glyphsAmong]
  by_cases hs : s = ""
  · rw [hs, Inline.cons_empty]
    rfl
  rcases Inline.head?_isText_or rest with h | ⟨t, tail, rfl⟩
  · rw [Inline.cons_text_of_ne hs h, glyphsAmong]
  · rw [Inline.cons_text_text hs, glyphsAmong, glyphsAmong, glyphsOf, glyphsOf, glyphsOf,
      textGlyphs_append, List.append_assoc]

mutual

theorem glyphsOf_normalize (k : Look) : ∀ i : Inline, glyphsOf k i.normalize = glyphsOf k i
  | .strong xs => by rw [Inline.normalize, glyphsOf, glyphsOf, glyphsAmong_normalizeList _ xs]
  | .emphasis xs => by rw [Inline.normalize, glyphsOf, glyphsOf, glyphsAmong_normalizeList _ xs]
  | .underline xs => by rw [Inline.normalize, glyphsOf, glyphsOf, glyphsAmong_normalizeList _ xs]
  | .link href xs => by rw [Inline.normalize, glyphsOf, glyphsOf, glyphsAmong_normalizeList _ xs]
  | .text _ | .code _ | .lineBreak | .image _ _ => by rw [Inline.normalize]

/-- **Normalizing keeps the glyphs.** -/
theorem glyphsAmong_normalizeList (k : Look) :
    ∀ xs : List Inline, glyphsAmong k (Inline.normalizeList xs) = glyphsAmong k xs
  | [] => rfl
  | i :: rest => by
    rw [Inline.normalizeList_cons, glyphsAmong_cons, glyphsOf_normalize k i,
      glyphsAmong_normalizeList k rest, glyphsAmong]

end

/-! ### Plain texts -/

mutual

/-- Whether all texts of an inline are plain. -/
def hasPlainTexts : Inline → Bool
  | .text s | .code s => isPlainText s
  | .strong inlines | .emphasis inlines | .underline inlines => havePlainTexts inlines
  | .lineBreak => true
  | .link href inlines => isPlainText href && havePlainTexts inlines
  | .image src alt => isPlainText src && alt.all isPlainText

/-- Whether all texts of inlines are plain. -/
def havePlainTexts : List Inline → Bool
  | [] => true
  | i :: rest => hasPlainTexts i && havePlainTexts rest

end

theorem isPlainText_append {s t : String} (hs : isPlainText s = true) (ht : isPlainText t = true) :
    isPlainText (s ++ t) = true := by
  rw [isPlainText, String.toList_append, List.all_append, Bool.and_eq_true]
  exact ⟨hs, ht⟩

theorem isPlainText_imageText {src : String} {alt : Option String} (hsrc : isPlainText src = true)
    (halt : alt.all isPlainText = true) : isPlainText (imageText src alt) = true := by
  have hname : isPlainText (alt.getD "image") = true := by
    cases alt with
    | none => decide
    | some a => exact halt
  have hmarks : isPlainText "[" = true ∧ isPlainText "](" = true ∧ isPlainText ")" = true := by
    decide
  exact isPlainText_append (isPlainText_append (isPlainText_append
    (isPlainText_append hmarks.1 hname) hmarks.2.1) hsrc) hmarks.2.2

/-! ### Formats of written runs -/

theorem isInLine_toLower (c : Char) : Xml.isInLine c.toLower = Xml.isInLine c := by
  delta Char.toLower
  split
  · next h =>
    have hletter : ∀ d : Char, 'A'.val ≤ d.val → Xml.isInLine d = true := by
      intro d hd
      rw [Xml.isInLine, Bool.and_eq_true, bne_iff_ne, bne_iff_ne]
      constructor <;> rintro rfl <;> exact absurd hd (by decide)
    rw [hletter c h.1, hletter]
    simp only [ge_iff_le, UInt32.le_iff_toNat_le] at h ⊢
    simp at h ⊢
    omega
  · rfl

/-- A font stays monospaced when the ends of lines in its name are left out. -/
theorem RunFormat.isMonospace_unbroken {font : String} (h : isMonospace font = true) :
    isMonospace (unbroken font) = true := by
  rw [isMonospace, List.any_eq_true] at h ⊢
  obtain ⟨part, hpart, h⟩ := h
  have hinLine : ∀ part ∈ monospaceNames, part.filter Xml.isInLine = part := by decide
  have hlower : Text.toLower (unbroken font).toList =
      (Text.toLower font.toList).filter Xml.isInLine := by
    rw [unbroken, String.toList_ofList, Text.toLower, Text.toLower, List.filter_map]
    exact congrArg (List.map Char.toLower)
      (List.filter_congr fun c _ => (isInLine_toLower c).symm)
  refine ⟨part, hpart, ?_⟩
  rw [Text.contains_iff] at h ⊢
  rw [hlower, ← hinLine part hpart]
  exact h.filter _

/-- The look of the runs in a format. -/
def RunFormat.look (f : RunFormat) (href : Option String) : Look :=
  ⟨f.bold, f.italic, f.underline, f.code, href⟩

/-- The look that formatting stands for. -/
def Formatting.look (f : Formatting) (href : Option String) : Look :=
  ⟨f.bold, f.italic, f.underline, f.code, href⟩

/-- **What a run is read as in the formatting that it was written in.**  Inside a link the underline
is not counted, and code has no style of its own. -/
theorem format_properties (o : Options) (f : Formatting) (inLink : Bool) :
    (f.properties o).format inLink = ⟨f.bold, f.italic, (f.underline || f.link) && !inLink,
      f.code && (!f.link || RunFormat.isMonospace (unbroken o.codeFont))⟩ := by
  have hcodeStyle : Text.toLower (unbroken Style.codeInline).toList = "codeinline".toList := by
    decide
  have hlinkStyle : Text.toLower (unbroken Style.hyperlink).toList = "hyperlink".toList := by
    decide
  have hnoStyle : Text.toLower (unbroken "").toList = [] := by decide
  have hnoFont : RunFormat.isMonospace (unbroken "") = false := by decide
  obtain ⟨bold, italic, underline, code, link⟩ := f
  cases link <;> cases code
  all_goals
    simp [RunProperties.format, Formatting.properties, hcodeStyle, hlinkStyle, hnoStyle, hnoFont,
      RunFormat.codeStyles]

/-! ### Written glyphs -/

/-- The glyphs of a segment in a link, or outside of all links. -/
def Segment.glyphs (href : Option String) (s : Segment) : List Glyph :=
  match s.piece with
  | .text t => textGlyphs (s.format.look href) t
  | _ => [⟨none, s.format.look href⟩]

/-- The glyphs that a part of a paragraph is read as. -/
def ParagraphPart.glyphs : ParagraphPart → List Glyph
  | .run r => (r.segment false).glyphs none
  | .hyperlink target runs =>
    runs.flatMap fun r => (r.segment true).glyphs (some (unbroken target))

/-- What is found of a look in a package. -/
def Look.read (o : Options) (k : Look) : Look :=
  if k.href.isSome then
    { k with underline := false
             code := k.code && RunFormat.isMonospace (unbroken o.codeFont) }
  else k

/-- What is found of a glyph in a package. -/
def Glyph.read (o : Options) (g : Glyph) : Glyph :=
  { g with look := g.look.read o }

theorem map_read_textGlyphs (o : Options) (k : Look) (s : String) :
    (textGlyphs k s).map (Glyph.read o) = textGlyphs (k.read o) s := by
  rw [textGlyphs, List.map_map]
  rfl

variable {o : Options}

/-- The look of what is written in a formatting. -/
theorem look_format (f : Formatting) (href : Option String) (h : href.isSome = f.link) :
    ((f.properties o).format href.isSome).look href = (f.look href).read o := by
  rw [h, format_properties, RunFormat.look, Look.read, Formatting.look]
  cases hlink : f.link <;> simp [h, hlink]

theorem glyphs_text (f : Formatting) (href : Option String) (h : href.isSome = f.link) {s : String}
    (hs : isPlainText s = true) :
    ((WrittenRun.mk (f.properties o) (.text s)).segment href.isSome).glyphs href =
      (textGlyphs (f.look href) s).map (Glyph.read o) := by
  rw [map_read_textGlyphs, ← look_format f href h, WrittenRun.segment, Segment.glyphs]
  simp only [RunContent.piece, unbroken_of_isPlainText hs]

theorem glyphs_lineBreak (f : Formatting) (href : Option String) (h : href.isSome = f.link) :
    ((WrittenRun.mk (f.properties o) .lineBreak).segment href.isSome).glyphs href =
      [Glyph.read o ⟨none, f.look href⟩] := by
  rw [Glyph.read, ← look_format f href h]
  rfl

mutual

/-- The runs of an inline in a link are read as its glyphs there. -/
theorem glyphs_linkRuns (target : String) (f : Formatting) (hlink : f.link = true) :
    ∀ i : Inline, hasPlainTexts i = true →
      (linkRuns o f i).flatMap (fun r => (r.segment true).glyphs (some target)) =
        (glyphsOf (f.look (some target)) i).map (Glyph.read o)
  | .strong xs, h => glyphs_linkRunsAmong target { f with bold := true } hlink xs h
  | .emphasis xs, h => glyphs_linkRunsAmong target { f with italic := true } hlink xs h
  | .underline xs, h => glyphs_linkRunsAmong target { f with underline := true } hlink xs h
  | .link _ xs, h => by
    rw [hasPlainTexts, Bool.and_eq_true] at h
    exact glyphs_linkRunsAmong target f hlink xs h.2
  | .text s, h => by
    rw [linkRuns, onOneLine_eq_self h, List.flatMap_singleton]
    exact glyphs_text f (some target) hlink.symm h
  | .code s, h => by
    rw [linkRuns, List.flatMap_singleton]
    exact glyphs_text { f with code := true } (some target) hlink.symm h
  | .lineBreak, _ => by
    rw [linkRuns, List.flatMap_singleton]
    exact glyphs_lineBreak f (some target) hlink.symm
  | .image src alt, h => by
    rw [hasPlainTexts, Bool.and_eq_true] at h
    rw [linkRuns, List.flatMap_singleton]
    exact glyphs_text f (some target) hlink.symm (isPlainText_imageText h.1 h.2)

/-- The runs of inlines in a link are read as their glyphs there. -/
theorem glyphs_linkRunsAmong (target : String) (f : Formatting) (hlink : f.link = true) :
    ∀ xs : List Inline, havePlainTexts xs = true →
      (linkRunsAmong o f xs).flatMap (fun r => (r.segment true).glyphs (some target)) =
        (glyphsAmong (f.look (some target)) xs).map (Glyph.read o)
  | [], _ => rfl
  | i :: rest, h => by
    rw [havePlainTexts, Bool.and_eq_true] at h
    rw [linkRunsAmong, glyphsAmong, List.flatMap_append, List.map_append,
      glyphs_linkRuns target f hlink i h.1, glyphs_linkRunsAmong target f hlink rest h.2]

end

mutual

theorem glyphs_partsOf (f : Formatting) (hlink : f.link = false) :
    ∀ i : Inline, hasPlainTexts i = true →
      (partsOf o f i).flatMap ParagraphPart.glyphs = (glyphsOf (f.look none) i).map (Glyph.read o)
  | .strong xs, h => glyphs_partsAmong { f with bold := true } hlink xs h
  | .emphasis xs, h => glyphs_partsAmong { f with italic := true } hlink xs h
  | .underline xs, h => glyphs_partsAmong { f with underline := true } hlink xs h
  | .link target xs, h => by
    rw [hasPlainTexts, Bool.and_eq_true] at h
    rw [partsOf, List.flatMap_singleton, ParagraphPart.glyphs, unbroken_of_isPlainText h.1]
    exact glyphs_linkRunsAmong target { f with link := true } rfl xs h.2
  | .text s, h => by
    rw [partsOf, onOneLine_eq_self h, List.flatMap_singleton, ParagraphPart.glyphs]
    exact glyphs_text f none hlink.symm h
  | .code s, h => by
    rw [partsOf, List.flatMap_singleton, ParagraphPart.glyphs]
    exact glyphs_text { f with code := true } none hlink.symm h
  | .lineBreak, _ => by
    rw [partsOf, List.flatMap_singleton, ParagraphPart.glyphs]
    exact glyphs_lineBreak f none hlink.symm
  | .image src alt, h => by
    rw [hasPlainTexts, Bool.and_eq_true] at h
    rw [partsOf, List.flatMap_singleton, ParagraphPart.glyphs]
    exact glyphs_text f none hlink.symm (isPlainText_imageText h.1 h.2)

/-- **The parts of a paragraph are read as the glyphs of its inlines**, as far as a package says
what they are. -/
theorem glyphs_partsAmong (f : Formatting) (hlink : f.link = false) :
    ∀ xs : List Inline, havePlainTexts xs = true →
      (partsAmong o f xs).flatMap ParagraphPart.glyphs =
        (glyphsAmong (f.look none) xs).map (Glyph.read o)
  | [], _ => rfl
  | i :: rest, h => by
    rw [havePlainTexts, Bool.and_eq_true] at h
    rw [partsAmong, glyphsAmong, List.flatMap_append, List.map_append,
      glyphs_partsOf f hlink i h.1, glyphs_partsAmong f hlink rest h.2]

end

/-! ### Runs of formattings -/

/-- A run is one that is written for some formatting; breaks are never set in code. -/
def WrittenRun.IsFormatted (o : Options) (r : WrittenRun) : Prop :=
  ∃ f : Formatting, r.properties = f.properties o ∧ (r.content = .lineBreak → f.code = false)

theorem isFormatted_text (f : Formatting) (s : String) :
    WrittenRun.IsFormatted o ⟨f.properties o, .text s⟩ :=
  ⟨f, rfl, fun h => nomatch h⟩

theorem isFormatted_lineBreak {f : Formatting} (h : f.code = false) :
    WrittenRun.IsFormatted o ⟨f.properties o, .lineBreak⟩ :=
  ⟨f, rfl, fun _ => h⟩

mutual

theorem isFormatted_linkRuns (f : Formatting) (hcode : f.code = false) :
    ∀ i : Inline, ∀ r ∈ linkRuns o f i, r.IsFormatted o
  | .strong xs => isFormatted_linkRunsAmong { f with bold := true } hcode xs
  | .emphasis xs => isFormatted_linkRunsAmong { f with italic := true } hcode xs
  | .underline xs => isFormatted_linkRunsAmong { f with underline := true } hcode xs
  | .link _ xs => isFormatted_linkRunsAmong f hcode xs
  | .text _ | .code _ | .image _ _ => List.forall_mem_singleton.mpr (isFormatted_text _ _)
  | .lineBreak => List.forall_mem_singleton.mpr (isFormatted_lineBreak hcode)

theorem isFormatted_linkRunsAmong (f : Formatting) (hcode : f.code = false) :
    ∀ xs : List Inline, ∀ r ∈ linkRunsAmong o f xs, r.IsFormatted o
  | [] => List.forall_mem_nil _
  | i :: rest => List.forall_mem_append.mpr
    ⟨isFormatted_linkRuns f hcode i, isFormatted_linkRunsAmong f hcode rest⟩

end

mutual

theorem isFormatted_partsOf (f : Formatting) (hcode : f.code = false) :
    ∀ i : Inline, ∀ part ∈ partsOf o f i, ∀ r ∈ part.runs, r.IsFormatted o
  | .strong xs => isFormatted_partsAmong { f with bold := true } hcode xs
  | .emphasis xs => isFormatted_partsAmong { f with italic := true } hcode xs
  | .underline xs => isFormatted_partsAmong { f with underline := true } hcode xs
  | .link _ xs => List.forall_mem_singleton.mpr
    (isFormatted_linkRunsAmong { f with link := true } hcode xs)
  | .text _ | .code _ | .image _ _ => List.forall_mem_singleton.mpr
    (List.forall_mem_singleton.mpr (isFormatted_text _ _))
  | .lineBreak => List.forall_mem_singleton.mpr
    (List.forall_mem_singleton.mpr (isFormatted_lineBreak hcode))

theorem isFormatted_partsAmong (f : Formatting) (hcode : f.code = false) :
    ∀ xs : List Inline, ∀ part ∈ partsAmong o f xs, ∀ r ∈ part.runs, r.IsFormatted o
  | [] => List.forall_mem_nil _
  | i :: rest => List.forall_mem_append.mpr
    ⟨isFormatted_partsOf f hcode i, isFormatted_partsAmong f hcode rest⟩

end

/-- The colour of a formatted run is plain if that of links is. -/
theorem WrittenRun.IsFormatted.hasPlainColor {r : WrittenRun} (h : r.IsFormatted o)
    (ho : '&' ∉ o.linkColor.toList ∧ '"' ∉ o.linkColor.toList) : r.properties.HasPlainColor := by
  obtain ⟨f, hf, -⟩ := h
  intro c hc
  rw [hf, Formatting.properties] at hc
  split at hc
  · obtain rfl := Option.mem_some_iff.mp hc
    exact ho
  · cases hc

end Interdoc.Docx

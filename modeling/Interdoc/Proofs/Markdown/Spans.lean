import Interdoc.Markdown.OfDocument
import Interdoc.Markdown.ToDocument
import Interdoc.Proofs.Document.NormalForm
import Interdoc.Proofs.Text.Lines

/-!
# Inlines as spans

Inlines that become spans and then inlines again are `reread` (`toInlines_ofInlines`): a text falls
into its lines and the line feeds between them, and underlining comes back from its tags, since
between the tags stands nothing but what was underlined.  In normal form the texts are whole again,
so all that is lost is that an image had an empty description (`normalizeList_rereadAll`).
-/

namespace Interdoc.Markdown

open Interdoc (Inline)

/-! ### Rereading -/

/-- The text of a line, unless it is empty. -/
def lineTexts (line : List Char) : List Inline :=
  if line.isEmpty then [] else [.text (String.ofList line)]

/-- A text in its lines, with the line feeds as texts of their own. -/
def textInLines (s : List Char) : List Inline :=
  match Text.splitOn '\n' s with
  | [] => []
  | first :: rest => lineTexts first ++ rest.flatMap fun line => .text "\n" :: lineTexts line

mutual

/-- The inlines that the spans of an inline are read as. -/
def reread : Inline → List Inline
  | .text s => textInLines s.toList
  | .strong inlines => [.strong (rereadAll inlines)]
  | .emphasis inlines => [.emphasis (rereadAll inlines)]
  | .underline inlines => [.underline (rereadAll inlines)]
  | .code s => [.code s]
  | .lineBreak => [.lineBreak]
  | .link href inlines => [.link href (rereadAll inlines)]
  | .image src alt => [.image src (alt.filter (· != ""))]

/-- The inlines that the spans of a sequence of inlines are read as. -/
def rereadAll : List Inline → List Inline
  | [] => []
  | i :: rest => reread i ++ rereadAll rest

end

/-! ### Pieces -/

theorem listToPieces_append (xs ys : List Span) :
    Span.listToPieces (xs ++ ys) = Span.listToPieces xs ++ Span.listToPieces ys := by
  induction xs with
  | nil => rfl
  | cons x xs ih =>
    rw [List.cons_append, Span.listToPieces, Span.listToPieces, ih, List.append_assoc]

/-- The pieces of a text are texts. -/
theorem listToPieces_ofText (s : List Char) :
    Span.listToPieces (Span.ofText s) = (textInLines s).map .inline := by
  have hline (line : List Char) :
      Span.listToPieces (if line.isEmpty then [] else [.text (String.ofList line)]) =
        (lineTexts line).map .inline := by
    rw [lineTexts]
    split <;> rfl
  rw [Span.ofText, textInLines]
  cases Text.splitOn '\n' s with
  | nil => rfl
  | cons first rest =>
    simp only [listToPieces_append, hline, List.map_append]
    congr 1
    induction rest with
    | nil => rfl
    | cons line rest ih =>
      rw [List.flatMap_cons, List.flatMap_cons, listToPieces_append, ih, List.map_append,
        Span.listToPieces, hline]
      rfl

namespace Pairing

/-- Several more inlines. -/
def pushAll (p : Pairing) (inlines : List Inline) : Pairing :=
  { p with current := inlines.reverse ++ p.current }

theorem pushAll_append (p : Pairing) (xs ys : List Inline) :
    (p.pushAll xs).pushAll ys = p.pushAll (xs ++ ys) := by
  rw [pushAll, pushAll, pushAll, List.reverse_append, List.append_assoc]

theorem foldl_step_map_inline (p : Pairing) (inlines : List Inline) :
    (inlines.map InlinePiece.inline).foldl step p = p.pushAll inlines := by
  induction inlines generalizing p with
  | nil => rfl
  | cons i inlines ih =>
    rw [List.map_cons, List.foldl_cons, ih, step, push, pushAll, pushAll, List.reverse_cons,
      List.append_assoc]
    rfl

end Pairing

/-! ### Underlining -/

theorem kind_openTag : RawKind.ofRaw (String.ofList openTag).toList = .opening := by
  decide

theorem kind_closeTag : RawKind.ofRaw (String.ofList closeTag).toList = .closing := by
  decide

/-- What is gathered between the tags of underlining becomes underlined. -/
theorem foldl_step_underline {pieces : List InlinePiece} {inlines : List Inline}
    (h : ∀ p : Pairing, pieces.foldl Pairing.step p = p.pushAll inlines) (p : Pairing) :
    (InlinePiece.raw (String.ofList openTag) :: pieces ++
      [InlinePiece.raw (String.ofList closeTag)]).foldl Pairing.step p =
        p.pushAll [.underline inlines] := by
  have hopen : p.step (.raw (String.ofList openTag)) = ⟨[], p.current :: p.outer⟩ := by
    simp only [Pairing.step, kind_openTag]
  have hclose (around : List Inline) (outer : List (List Inline)) :
      Pairing.step ⟨inlines.reverse, around :: outer⟩ (.raw (String.ofList closeTag)) =
        ⟨.underline inlines :: around, outer⟩ := by
    simp only [Pairing.step, kind_closeTag, List.reverse_reverse]
  rw [List.cons_append, List.foldl_cons, hopen, List.foldl_append, h, List.foldl_cons,
    List.foldl_nil, Pairing.pushAll, List.append_nil, hclose]
  rfl

/-- Pieces that add inlines to what is gathered are those inlines. -/
theorem resolveUnderline_eq {pieces : List InlinePiece} {inlines : List Inline}
    (h : ∀ p : Pairing, pieces.foldl Pairing.step p = p.pushAll inlines) :
    resolveUnderline pieces = inlines := by
  rw [resolveUnderline, h]
  simp only [Pairing.pushAll, Pairing.empty, List.append_nil, Pairing.finish, List.reverse_reverse]

/-- The description of an image comes back, unless it is empty. -/
theorem description?_alt (alt : Option String) :
    description? (resolveUnderline (Span.listToPieces
      (if alt.getD "" = "" then [] else [.text (alt.getD "")]))) = alt.filter (· != "") := by
  cases alt with
  | none => rfl
  | some a =>
    rw [Option.getD_some]
    by_cases ha : a = ""
    · rw [ha]
      rfl
    · have htext : resolveUnderline (Span.listToPieces [.text a]) = [.text a] := rfl
      have hplain : Inline.plainTextList [.text a] = a := String.append_empty
      rw [if_neg ha, htext, description?, hplain, if_neg ha, Option.filter_some,
        if_pos (bne_iff_ne.mpr ha)]

mutual

theorem foldl_step_ofInline : ∀ (i : Inline) (p : Pairing),
    (Span.listToPieces (Span.ofInline i)).foldl Pairing.step p = p.pushAll (reread i)
  | .text s, p => by
    rw [Span.ofInline, listToPieces_ofText, Pairing.foldl_step_map_inline, reread]
  | .strong xs, p => by
    -- what is in a container is paired apart from what is around it
    have hxs := resolveUnderline_eq (foldl_step_ofInlines xs)
    change p.push (.strong (resolveUnderline (Span.listToPieces (Span.ofInlines xs)))) = _
    rw [hxs]
    rfl
  | .emphasis xs, p => by
    have hxs := resolveUnderline_eq (foldl_step_ofInlines xs)
    change p.push (.emphasis (resolveUnderline (Span.listToPieces (Span.ofInlines xs)))) = _
    rw [hxs]
    rfl
  | .underline xs, p => by
    have hpieces : Span.listToPieces (Span.ofInline (.underline xs)) =
        .raw (String.ofList openTag) :: Span.listToPieces (Span.ofInlines xs) ++
          [.raw (String.ofList closeTag)] := by
      rw [Span.ofInline, List.cons_append, Span.listToPieces, listToPieces_append]
      rfl
    rw [hpieces]
    exact foldl_step_underline (foldl_step_ofInlines xs) p
  | .code s, p => rfl
  | .lineBreak, p => rfl
  | .link href xs, p => by
    have hxs := resolveUnderline_eq (foldl_step_ofInlines xs)
    change p.push (.link href (resolveUnderline (Span.listToPieces (Span.ofInlines xs)))) = _
    rw [hxs]
    rfl
  | .image src alt, p => by
    change p.push (.image src (description? (resolveUnderline (Span.listToPieces
      (if alt.getD "" = "" then [] else [.text (alt.getD "")]))))) = _
    rw [description?_alt]
    rfl

/-- **What spans are read as is gathered inline by inline**, whatever has been gathered before. -/
theorem foldl_step_ofInlines : ∀ (xs : List Inline) (p : Pairing),
    (Span.listToPieces (Span.ofInlines xs)).foldl Pairing.step p = p.pushAll (rereadAll xs)
  | [], _ => rfl
  | i :: rest, p => by
    rw [Span.ofInlines, listToPieces_append, List.foldl_append, foldl_step_ofInline i,
      foldl_step_ofInlines rest, Pairing.pushAll_append, rereadAll]

end

/-- **Inlines are reread.** -/
theorem toInlines_ofInlines (xs : List Inline) :
    Span.toInlines (Span.ofInlines xs) = rereadAll xs :=
  resolveUnderline_eq (foldl_step_ofInlines xs)

/-! ### Normal forms -/

theorem normalizeList_lineTexts (line : List Char) (rest : List Inline) :
    Inline.normalizeList (lineTexts line ++ rest) =
      Inline.cons (.text (String.ofList line)) (Inline.normalizeList rest) := by
  rw [lineTexts]
  split
  · next h =>
    rw [List.isEmpty_iff.mp h, show String.ofList [] = "" from rfl, Inline.cons_empty]
    rfl
  · rw [List.singleton_append, Inline.normalizeList_cons, Inline.normalize]

theorem normalizeList_lines (first : List Char) (lines : List (List Char)) (rest : List Inline) :
    Inline.normalizeList
        (lineTexts first ++ (lines.flatMap (fun line => .text "\n" :: lineTexts line) ++ rest)) =
      Inline.cons (.text (String.ofList (Text.join ['\n'] (first :: lines))))
        (Inline.normalizeList rest) := by
  induction lines generalizing first with
  | nil => exact normalizeList_lineTexts first rest
  | cons line lines ih =>
    have hjoin : String.ofList first ++ "\n" ++ String.ofList (Text.join ['\n'] (line :: lines)) =
        String.ofList (Text.join ['\n'] (first :: line :: lines)) := by
      rw [Text.join_cons first (List.cons_ne_nil _ _), String.ofList_append, String.ofList_append]
    -- the line feed joins the line before it and those behind it
    rw [normalizeList_lineTexts, List.flatMap_cons, List.cons_append, List.cons_append,
      Inline.normalizeList_cons, Inline.normalize, List.append_assoc, ih,
      Inline.cons_text_cons_text, Inline.cons_text_cons_text, hjoin]

/-- **The lines of a text are the text again.** -/
theorem normalizeList_textInLines (s : String) (rest : List Inline) :
    Inline.normalizeList (textInLines s.toList ++ rest) =
      Inline.cons (.text s) (Inline.normalizeList rest) := by
  obtain ⟨first, lines, hlines⟩ :=
    List.exists_cons_of_ne_nil (Text.splitOn_ne_nil '\n' s.toList)
  have hs : String.ofList (Text.join ['\n'] (first :: lines)) = s := by
    rw [← hlines, Text.join_splitOn, String.ofList_toList]
  rw [textInLines, hlines, ← hs, List.append_assoc]
  exact normalizeList_lines first lines rest

mutual

/-- An inline in which no image has an empty description. -/
def dropEmptyAlts : Inline → Inline
  | .strong inlines => .strong (dropEmptyAltsAll inlines)
  | .emphasis inlines => .emphasis (dropEmptyAltsAll inlines)
  | .underline inlines => .underline (dropEmptyAltsAll inlines)
  | .link href inlines => .link href (dropEmptyAltsAll inlines)
  | .image src alt => .image src (alt.filter (· != ""))
  | .text s => .text s
  | .code s => .code s
  | .lineBreak => .lineBreak

/-- Inlines in which no image has an empty description. -/
def dropEmptyAltsAll : List Inline → List Inline
  | [] => []
  | i :: rest => dropEmptyAlts i :: dropEmptyAltsAll rest

end

mutual

theorem normalizeList_reread_append (rest : List Inline) : ∀ i : Inline,
    Inline.normalizeList (reread i ++ rest) =
      Inline.cons (Inline.normalize (dropEmptyAlts i)) (Inline.normalizeList rest)
  | .strong xs | .emphasis xs | .underline xs | .link _ xs => by
    rw [reread, dropEmptyAlts, List.singleton_append, Inline.normalizeList_cons, Inline.normalize,
      Inline.normalize, normalizeList_rereadAll xs]
  | .text s => by
    rw [reread, dropEmptyAlts, normalizeList_textInLines, Inline.normalize]
  | .code _ | .lineBreak | .image _ _ => by
    rw [reread, dropEmptyAlts, List.singleton_append, Inline.normalizeList_cons]

/-- **In normal form nothing but empty descriptions is lost.** -/
theorem normalizeList_rereadAll : ∀ xs : List Inline,
    Inline.normalizeList (rereadAll xs) = Inline.normalizeList (dropEmptyAltsAll xs)
  | [] => rfl
  | i :: rest => by
    rw [rereadAll, normalizeList_reread_append, normalizeList_rereadAll rest, dropEmptyAltsAll,
      Inline.normalizeList_cons]

end

/-! ### Inlines that come back -/

mutual

/-- Whether no image in an inline has an empty description. -/
def hasNoEmptyAlt : Inline → Bool
  | .strong inlines | .emphasis inlines | .underline inlines | .link _ inlines =>
    haveNoEmptyAlt inlines
  | .image _ alt => alt != some ""
  | .text _ | .code _ | .lineBreak => true

/-- Whether no image in inlines has an empty description. -/
def haveNoEmptyAlt : List Inline → Bool
  | [] => true
  | i :: rest => hasNoEmptyAlt i && haveNoEmptyAlt rest

end

theorem filter_alt_ne (alt : Option String) : (alt.filter (· != "") != some "") = true := by
  cases alt with
  | none => rfl
  | some a =>
    by_cases ha : a = "" <;> simp [Option.filter_some, ha]

mutual

theorem hasNoEmptyAlt_dropEmptyAlts : ∀ i : Inline, hasNoEmptyAlt (dropEmptyAlts i) = true
  | .strong xs | .emphasis xs | .underline xs | .link _ xs => by
    rw [dropEmptyAlts, hasNoEmptyAlt, haveNoEmptyAlt_dropEmptyAltsAll xs]
  | .image _ alt => filter_alt_ne alt
  | .text _ | .code _ | .lineBreak => rfl

theorem haveNoEmptyAlt_dropEmptyAltsAll : ∀ xs : List Inline,
    haveNoEmptyAlt (dropEmptyAltsAll xs) = true
  | [] => rfl
  | i :: rest => by
    rw [dropEmptyAltsAll, haveNoEmptyAlt, hasNoEmptyAlt_dropEmptyAlts i,
      haveNoEmptyAlt_dropEmptyAltsAll rest, Bool.and_true]

end

mutual

theorem dropEmptyAlts_eq_self : ∀ {i : Inline}, hasNoEmptyAlt i = true → dropEmptyAlts i = i
  | .strong xs, h | .emphasis xs, h | .underline xs, h | .link _ xs, h => by
    rw [dropEmptyAlts, dropEmptyAltsAll_eq_self h]
  | .image src none, _ => rfl
  | .image src (some a), h => by
    have ha : (a != "") = true := by simpa [hasNoEmptyAlt] using h
    rw [dropEmptyAlts, Option.filter_some, if_pos ha]
  | .text _, _ | .code _, _ | .lineBreak, _ => rfl

theorem dropEmptyAltsAll_eq_self : ∀ {xs : List Inline}, haveNoEmptyAlt xs = true →
    dropEmptyAltsAll xs = xs
  | [], _ => rfl
  | i :: rest, h => by
    rw [haveNoEmptyAlt, Bool.and_eq_true] at h
    rw [dropEmptyAltsAll, dropEmptyAlts_eq_self h.1, dropEmptyAltsAll_eq_self h.2]

end

theorem haveNoEmptyAlt_cons (i : Inline) (rest : List Inline) :
    haveNoEmptyAlt (Inline.cons i rest) = (hasNoEmptyAlt i && haveNoEmptyAlt rest) := by
  rcases i.isText_eq_false_or with hi | ⟨s, rfl⟩
  · rw [Inline.cons_of_not_isText hi, haveNoEmptyAlt]
  by_cases hs : s = ""
  · rw [hs, Inline.cons_empty]
    rfl
  rcases Inline.head?_isText_or rest with h | ⟨t, tail, rfl⟩
  · rw [Inline.cons_text_of_ne hs h, haveNoEmptyAlt]
  · rw [Inline.cons_text_text hs]
    rfl

mutual

theorem hasNoEmptyAlt_normalize : ∀ i : Inline, hasNoEmptyAlt i.normalize = hasNoEmptyAlt i
  | .strong xs | .emphasis xs | .underline xs | .link _ xs => by
    rw [Inline.normalize, hasNoEmptyAlt, hasNoEmptyAlt, haveNoEmptyAlt_normalizeList xs]
  | .text _ | .code _ | .lineBreak | .image _ _ => by rw [Inline.normalize]

/-- The pass to the normal form keeps descriptions. -/
theorem haveNoEmptyAlt_normalizeList : ∀ xs : List Inline,
    haveNoEmptyAlt (Inline.normalizeList xs) = haveNoEmptyAlt xs
  | [] => rfl
  | i :: rest => by
    rw [Inline.normalizeList_cons, haveNoEmptyAlt_cons, hasNoEmptyAlt_normalize i,
      haveNoEmptyAlt_normalizeList rest, haveNoEmptyAlt]

end

/-! ### Inlines on the way -/

/-- What becomes of inlines on the way through spans, in normal form. -/
def throughSpans (xs : List Inline) : List Inline :=
  Inline.normalizeList (dropEmptyAltsAll xs)

theorem normalizeList_toInlines (xs : List Inline) :
    Inline.normalizeList (Span.toInlines (Span.ofInlines xs)) = throughSpans xs := by
  rw [toInlines_ofInlines, normalizeList_rereadAll, throughSpans]

theorem haveNoEmptyAlt_throughSpans (xs : List Inline) :
    haveNoEmptyAlt (throughSpans xs) = true := by
  rw [throughSpans, haveNoEmptyAlt_normalizeList, haveNoEmptyAlt_dropEmptyAltsAll]

/-- **Normal inlines without empty descriptions come back.** -/
theorem throughSpans_eq_self {xs : List Inline} (hn : Inline.IsNormalList xs)
    (h : haveNoEmptyAlt xs = true) : throughSpans xs = xs := by
  rw [throughSpans, dropEmptyAltsAll_eq_self h, Inline.normalizeList_eq_self hn]

/-- Something is left of normal inlines. -/
theorem throughSpans_ne_nil {xs : List Inline} (hn : Inline.IsNormalList xs) (hne : xs ≠ []) :
    throughSpans xs ≠ [] := by
  obtain ⟨i, rest, rfl⟩ := List.exists_cons_of_ne_nil hne
  rw [Inline.IsNormalList] at hn
  rw [throughSpans, dropEmptyAltsAll, Inline.normalizeList_cons]
  generalize Inline.normalizeList (dropEmptyAltsAll rest) = tail
  -- only an empty text could vanish
  cases i with
  | text s =>
    have hs : s ≠ "" := by simpa [Inline.IsNormal] using hn.1
    rw [dropEmptyAlts, Inline.normalize]
    rcases Inline.head?_isText_or tail with h | ⟨t, tail, rfl⟩
    · rw [Inline.cons_text_of_ne hs h]
      exact List.cons_ne_nil _ _
    · rw [Inline.cons_text_text hs]
      exact List.cons_ne_nil _ _
  | _ =>
    rw [dropEmptyAlts, Inline.normalize, Inline.cons_of_not_isText rfl]
    exact List.cons_ne_nil _ _

end Interdoc.Markdown

import Interdoc.Proofs.Html.Tags

/-!
# The text of HTML

The text of HTML is what is left without its tags when the references in it are replaced.  Here this
is done in the plainest way: `stripTags` drops everything from a `<` to the next `>`, and
`dereference` knows the four references that escaping writes.

Rendered pieces give back their own texts in this way (`dereference_stripTags_render`), since no
text and no attribute has a bracket in it that is not escaped.
-/

namespace Interdoc.Html

/-! ### Reading texts -/

/-- What is left of HTML without its tags, inside a tag or outside. -/
def stripTagsFrom : (inside : Bool) → List Char → List Char
  | _, [] => []
  | true, c :: s => stripTagsFrom (c != '>') s
  | false, c :: s => if c = '<' then stripTagsFrom true s else c :: stripTagsFrom false s

/-- HTML without its tags. -/
def stripTags (s : List Char) : List Char :=
  stripTagsFrom false s

/-- A text with its references replaced. -/
def dereference : List Char → List Char
  | [] => []
  | '&' :: 'a' :: 'm' :: 'p' :: ';' :: s => '&' :: dereference s
  | '&' :: 'l' :: 't' :: ';' :: s => '<' :: dereference s
  | '&' :: 'g' :: 't' :: ';' :: s => '>' :: dereference s
  | '&' :: 'q' :: 'u' :: 'o' :: 't' :: ';' :: s => '"' :: dereference s
  | c :: s => c :: dereference s

example : dereference (stripTags "<p>1 &lt; <em>2</em> &amp;lt;</p>".toList) =
    "1 < 2 &lt;".toList := by decide

theorem dereference_cons {c : Char} (h : c ≠ '&') (s : List Char) :
    dereference (c :: s) = c :: dereference s := by
  rw [dereference]
  all_goals exact fun _ hc => absurd hc h

/-- **Escaped text** is read back. -/
theorem dereference_escape (s : List Char) : dereference (escape s) = s := by
  induction s with
  | nil => rfl
  | cons c s ih =>
    rw [escape, List.flatMap_cons, ← escape]
    unfold escapeChar
    split
    case h_5 hamp _ _ _ =>
      rw [List.singleton_append, dereference_cons hamp, ih]
    all_goals exact congrArg _ ih

/-! ### Pieces -/

/-- The text of a piece. -/
def Piece.ownText : Piece → List Char
  | .text s => s.toList
  | _ => []

/-- The text of pieces. -/
def textOf (pieces : List Piece) : List Char :=
  pieces.flatMap Piece.ownText

theorem textOf_append (ps qs : List Piece) : textOf (ps ++ qs) = textOf ps ++ textOf qs :=
  List.flatMap_append

/-- A tag is dropped up to its end. -/
theorem stripTagsFrom_inside {content : List Char} (h : '>' ∉ content) (rest : List Char) :
    stripTagsFrom true (content ++ '>' :: rest) = stripTagsFrom false rest := by
  induction content with
  | nil => rfl
  | cons c content ih =>
    rw [List.mem_cons, not_or] at h
    have hc : (c != '>') = true := by simpa using Ne.symm h.1
    rw [List.cons_append, stripTagsFrom, hc, ih h.2]

theorem stripTagsFrom_outside {s : List Char} (h : '<' ∉ s) (rest : List Char) :
    stripTagsFrom false (s ++ rest) = s ++ stripTagsFrom false rest := by
  induction s with
  | nil => rfl
  | cons c s ih =>
    rw [List.mem_cons, not_or] at h
    rw [List.cons_append, stripTagsFrom, if_neg (Ne.symm h.1), ih h.2, List.cons_append]

theorem stripTagsFrom_tag {content : List Char} (h : '>' ∉ content) (rest : List Char) :
    stripTagsFrom false ('<' :: content ++ '>' :: rest) = stripTagsFrom false rest := by
  rw [List.cons_append, stripTagsFrom, if_pos rfl, stripTagsFrom_inside h]

theorem stripTagsFrom_start {tag : String} {attributes : List (String × String)}
    (htag : isTagName tag.toList = true) (h : ∀ a ∈ attributes, isTagName a.1.toList = true)
    (rest : List Char) :
    stripTagsFrom false (renderStart tag attributes ++ rest) = stripTagsFrom false rest := by
  rw [← stripTagsFrom_tag (not_mem_start htag h (.inr rfl)) rest, renderStart]
  simp

theorem stripTagsFrom_piece {piece : Piece} (h : piece.HasNames) (rest : List Char) :
    stripTagsFrom false (piece.render ++ rest) =
      escape piece.ownText ++ stripTagsFrom false rest := by
  cases piece with
  | start tag attributes => exact stripTagsFrom_start h.1 h.2 rest
  | finish tag =>
    have hname : '>' ∉ '/' :: tag.toList := by
      rw [List.mem_cons, not_or]
      exact ⟨by decide, not_mem_name h (by decide)⟩
    rw [Piece.render, List.append_assoc]
    exact stripTagsFrom_tag hname rest
  | void tag attributes => exact stripTagsFrom_start h.1 h.2 rest
  | text s =>
    refine stripTagsFrom_outside (fun hmem => ?_) rest
    exact absurd (not_isReserved_of_mem_escape hmem) (by decide)

/-- **Rendered pieces** without their tags are their escaped texts. -/
theorem stripTags_render {pieces : List Piece} (h : ∀ p ∈ pieces, p.HasNames) :
    stripTags (render pieces) = escape (textOf pieces) := by
  rw [stripTags]
  induction pieces with
  | nil => rfl
  | cons p pieces ih =>
    rw [List.forall_mem_cons] at h
    rw [render, List.flatMap_cons, stripTagsFrom_piece h.1, ← render, ih h.2, textOf, textOf,
      List.flatMap_cons, escape, escape, escape, List.flatMap_append]

/-- **The text of rendered pieces** is that of the pieces. -/
theorem dereference_stripTags_render {pieces : List Piece} (h : ∀ p ∈ pieces, p.HasNames) :
    dereference (stripTags (render pieces)) = textOf pieces := by
  rw [stripTags_render h, dereference_escape]

end Interdoc.Html

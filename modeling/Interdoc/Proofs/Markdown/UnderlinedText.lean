import Interdoc.Proofs.Document.VisibleText
import Interdoc.Proofs.Markdown.Underline

/-!
# Text around underlining tags

Whatever tags of underlining are among some pieces, `resolveUnderline` loses none of the pieces and
moves none.  With underlining opened up (`Inline.leaves`) each piece has left in its place what it
holds (`AreLeftOf`).  With underlining written as tags (`Inline.written`) the inlines are the pieces,
but for blanks and the case of letters (`Text.folded`), since a tag may be in capitals and have
blanks around it.  Both follow from the laws of pairing by `pieces_induction`.
-/

namespace Interdoc

namespace Text

/-- The visible characters of a string, with the letters of ASCII in lower case. -/
def folded (s : String) : List Char :=
  toLower (visible s)

theorem folded_append (s t : String) : folded (s ++ t) = folded s ++ folded t := by
  unfold folded toLower
  rw [visible_append, List.map_append]

/-- A letter is no blank, in upper and in lower case. -/
theorem isBlankChar_toLower (c : Char) : isBlankChar c.toLower = isBlankChar c := by
  delta Char.toLower
  split
  · next h =>
    have hletter : ∀ d : Char, 65 ≤ d.toNat → d.toNat ≤ 122 → isBlankChar d = false := by
      intro d hlow hhigh
      unfold isBlankChar
      simp only [Char.le_def, UInt32.le_iff_toNat_le, Bool.or_eq_false_iff,
        Bool.and_eq_false_iff, beq_eq_false_iff_ne, decide_eq_false_iff_not, ne_eq, Char.ext_iff,
        UInt32.ext_iff]
      simp
      omega
    simp only [ge_iff_le, UInt32.le_iff_toNat_le] at h
    simp at h
    rw [hletter c (by omega) (by omega), hletter]
    all_goals simp; omega
  · rfl

/-- Case and blanks can be left out of account in either order. -/
theorem folded_eq (s : String) :
    folded s = (toLower s.toList).filter fun c => !isBlankChar c := by
  unfold folded visible toLower
  rw [List.filter_map]
  refine congrArg (List.map Char.toLower) (List.filter_congr fun c _ => ?_)
  rw [Function.comp_apply, isBlankChar_toLower]

/-- Blanks at the ends make no difference. -/
theorem folded_ofList_trim (s : String) : folded (String.ofList (trim s.toList)) = folded s := by
  unfold folded trim
  rw [visible_ofList_trimRight, visible_ofList_trimLeft, String.ofList_toList]

end Text

namespace Inline

mutual

/-- What an inline holds besides underlining: itself, or the parts of what is underlined. -/
def leaves : Inline → List Inline
  | .underline inlines => leavesAmong inlines
  | .text s => [.text s]
  | .strong inlines => [.strong inlines]
  | .emphasis inlines => [.emphasis inlines]
  | .code s => [.code s]
  | .lineBreak => [.lineBreak]
  | .link href inlines => [.link href inlines]
  | .image src alt => [.image src alt]

/-- What inlines hold besides underlining. -/
def leavesAmong : List Inline → List Inline
  | [] => []
  | i :: rest => leaves i ++ leavesAmong rest

end

theorem leavesAmong_append (xs ys : List Inline) :
    leavesAmong (xs ++ ys) = leavesAmong xs ++ leavesAmong ys := by
  induction xs with
  | nil => rfl
  | cons i xs ih => rw [List.cons_append, leavesAmong, ih, leavesAmong, List.append_assoc]

mutual

/-- An inline in writing: texts as they are, underlining with its tags, and all else in a way of its
own. -/
def written (write : Inline → String) : Inline → String
  | .text s => s
  | .underline inlines => "<u>" ++ writtenAmong write inlines ++ "</u>"
  | .strong inlines => write (.strong inlines)
  | .emphasis inlines => write (.emphasis inlines)
  | .code s => write (.code s)
  | .lineBreak => write .lineBreak
  | .link href inlines => write (.link href inlines)
  | .image src alt => write (.image src alt)

/-- Inlines in writing, one after the other. -/
def writtenAmong (write : Inline → String) : List Inline → String
  | [] => ""
  | i :: rest => written write i ++ writtenAmong write rest

end

theorem writtenAmong_append (write : Inline → String) (xs ys : List Inline) :
    writtenAmong write (xs ++ ys) = writtenAmong write xs ++ writtenAmong write ys := by
  induction xs with
  | nil => rw [List.nil_append, writtenAmong, String.empty_append]
  | cons i xs ih => rw [List.cons_append, writtenAmong, ih, writtenAmong, String.append_assoc]

end Inline

namespace Markdown

/-! ### What is left of the pieces -/

namespace InlinePiece

/-- Inlines are what is left of a piece: all that it holds, but of a tag its text or nothing. -/
def IsLeftOf : InlinePiece → List Inline → Prop
  | .inline i, left => left = i.leaves
  | .raw s, left =>
    match RawKind.ofRaw s.toList with
    | .opening => left = [] ∨ left = [.text "<u>"]
    | .closing => left = [] ∨ left = [.text s]
    | .wrapped inner => left = [.text (String.ofList inner)]
    | .opaqueText => left = [.text s]

end InlinePiece

/-- Inlines are what is left of pieces, one piece after the other. -/
inductive AreLeftOf : List InlinePiece → List Inline → Prop
  | nil : AreLeftOf [] []
  | cons {piece : InlinePiece} {pieces : List InlinePiece} {left rest : List Inline} :
      piece.IsLeftOf left → AreLeftOf pieces rest → AreLeftOf (piece :: pieces) (left ++ rest)

theorem AreLeftOf.append {ps qs : List InlinePiece} {xs ys : List Inline} (hp : AreLeftOf ps xs)
    (hq : AreLeftOf qs ys) : AreLeftOf (ps ++ qs) (xs ++ ys) := by
  induction hp with
  | nil => exact hq
  | cons hpiece _ ih =>
    rw [List.append_assoc]
    exact .cons hpiece ih

theorem AreLeftOf.exists_append {ps qs : List InlinePiece} {inlines : List Inline}
    (h : AreLeftOf (ps ++ qs) inlines) :
    ∃ xs ys, inlines = xs ++ ys ∧ AreLeftOf ps xs ∧ AreLeftOf qs ys := by
  induction ps generalizing inlines with
  | nil => exact ⟨[], inlines, rfl, .nil, h⟩
  | cons piece ps ih =>
    cases h with
    | cons hpiece hrest =>
      obtain ⟨xs, ys, rfl, hp, hq⟩ := ih hrest
      exact ⟨_, ys, (List.append_assoc ..).symm, .cons hpiece hp, hq⟩

namespace InlinePiece

theorem isLeftOf_plain {piece : InlinePiece} (h : piece.isOpening = false) :
    piece.IsLeftOf piece.plain.leaves := by
  cases piece with
  | inline i => exact rfl
  | raw s =>
    rw [isOpening] at h
    cases hkind : RawKind.ofRaw s.toList with
    | opening => rw [hkind] at h; cases h
    | closing =>
      simp only [IsLeftOf, plain, hkind]
      exact .inr rfl
    | wrapped inner => simp [IsLeftOf, plain, hkind, Inline.leaves, Inline.leavesAmong]
    | opaqueText => simp [IsLeftOf, plain, hkind, Inline.leaves]

theorem isLeftOf_opening {piece : InlinePiece} (h : piece.isOpening = true) :
    piece.IsLeftOf [] ∧ piece.IsLeftOf [.text "<u>"] := by
  cases piece with
  | inline i => cases h
  | raw s =>
    rw [isOpening, beq_iff_eq] at h
    simp [IsLeftOf, h]

theorem isLeftOf_closing {piece : InlinePiece} (h : piece.isClosing = true) :
    piece.IsLeftOf [] := by
  cases piece with
  | inline i => cases h
  | raw s =>
    rw [isClosing, beq_iff_eq] at h
    simp [IsLeftOf, h]

end InlinePiece

/-- **No inline is lost, changed or moved**: with underlining opened up, each piece has left in its
place what it holds, and a tag its text or nothing. -/
theorem areLeftOf_resolveUnderline (pieces : List InlinePiece) :
    AreLeftOf pieces (Inline.leavesAmong (resolveUnderline pieces)) := by
  induction pieces using pieces_induction with
  | plain pieces h =>
    rw [resolve_plain h]
    induction pieces with
    | nil => exact .nil
    | cons piece pieces ih =>
      rw [List.forall_mem_cons] at h
      rw [List.map_cons, Inline.leavesAmong]
      exact .cons (InlinePiece.isLeftOf_plain h.1.1) (ih h.2)
  | closing before tag after htag hopen ihBefore ihAfter =>
    rw [resolve_loose_closing htag hopen, Inline.leavesAmong_append, Inline.leavesAmong]
    have hplain := InlinePiece.isLeftOf_plain (InlinePiece.isOpening_of_isClosing htag)
    exact ihBefore.append (.cons hplain ihAfter)
  | opening before tag after htag hloose ihBefore ihAfter =>
    rw [resolve_open_opening htag hloose, Inline.leavesAmong_append, Inline.leavesAmong]
    exact ihBefore.append (.cons (InlinePiece.isLeftOf_opening htag).2 ihAfter)
  | pair outer first inner last after hfirst hlast hloose hopen ihInner ihWhole =>
    rw [resolve_pair hfirst hlast hloose hopen]
    obtain ⟨xs, ys, hleaves, houter, hrest⟩ := ihWhole.exists_append
    rw [hleaves]
    cases hrest with
    | cons hpair hafter =>
      -- the pair has left what its inner pieces have left
      obtain rfl : _ = Inline.leavesAmong (resolveUnderline inner) := hpair
      have hinner : AreLeftOf (first :: inner) (Inline.leavesAmong (resolveUnderline inner)) :=
        .cons (InlinePiece.isLeftOf_opening hfirst).1 ihInner
      rw [List.append_assoc]
      exact houter.append (hinner.append (.cons (InlinePiece.isLeftOf_closing hlast) hafter))

/-! ### Writing -/

/-- A piece in writing. -/
def InlinePiece.written (write : Inline → String) : InlinePiece → String
  | .inline i => i.written write
  | .raw s => s

/-- Pieces in writing, one after the other. -/
def writtenPieces (write : Inline → String) (pieces : List InlinePiece) : String :=
  String.join (pieces.map (InlinePiece.written write))

/-- What starts with one tag and ends with the other has both of them; they share no character. -/
theorem exists_between_tags {s : List Char} (hopen : openTag <+: s) (hclose : closeTag <:+ s) :
    ∃ inner, s = openTag ++ inner ++ closeTag := by
  obtain ⟨rest, rfl⟩ := hopen
  rcases List.suffix_or_suffix_of_suffix hclose (List.suffix_append openTag rest) with
    ⟨inner, rfl⟩ | hrest
  · exact ⟨inner, (List.append_assoc ..).symm⟩
  · -- the rest would be a proper end of the closing tag
    have hmem : rest ∈ closeTag.tails := (List.mem_tails rest closeTag).mpr hrest
    have hall : ∀ rest ∈ closeTag.tails, closeTag <:+ openTag ++ rest → rest = closeTag := by
      decide +kernel
    obtain rfl := hall rest hmem hclose
    exact ⟨[], rfl⟩

theorem toLower_trim_of_opening {s : List Char} (h : RawKind.ofRaw s = .opening) :
    Text.toLower (Text.trim s) = openTag := by
  unfold RawKind.ofRaw at h
  dsimp only at h
  split at h
  · assumption
  split at h
  · cases h
  split at h
  · split at h <;> cases h
  · cases h

theorem toLower_trim_of_closing {s : List Char} (h : RawKind.ofRaw s = .closing) :
    Text.toLower (Text.trim s) = closeTag := by
  unfold RawKind.ofRaw at h
  dsimp only at h
  split at h
  · cases h
  split at h
  · assumption
  split at h
  · split at h <;> cases h
  · cases h

/-- A text in both tags is the text between them with the tags. -/
theorem exists_tags_of_wrapped {s inner : List Char} (h : RawKind.ofRaw s = .wrapped inner) :
    ∃ before after, Text.trim s = before ++ inner ++ after ∧ Text.toLower before = openTag ∧
      Text.toLower after = closeTag := by
  unfold RawKind.ofRaw at h
  dsimp only at h
  split at h
  · cases h
  split at h
  · cases h
  split at h
  · next hboth =>
    split at h
    · cases h
    · rw [Bool.and_eq_true, Text.startsWith_iff, Option.isSome_iff_exists] at hboth
      obtain ⟨hopen, front, hfront⟩ := hboth
      rw [Text.stripSuffix?_eq_some_iff] at hfront
      obtain ⟨middle, hmiddle⟩ := exists_between_tags hopen ⟨front, hfront.symm⟩
      obtain rfl := RawKind.wrapped.inj h
      -- folding keeps the number of characters, so the tags are cut off by their lengths
      have hlength : (Text.trim s).length - closeTag.length = (openTag ++ middle).length := by
        have hall := congrArg List.length hmiddle
        rw [Text.toLower, List.length_map, List.length_append] at hall
        omega
      refine ⟨(Text.trim s).take openTag.length,
        (Text.trim s).drop ((Text.trim s).length - closeTag.length), ?_, ?_, ?_⟩
      · have hopening : (Text.trim s).take openTag.length =
            ((Text.trim s).take ((Text.trim s).length - closeTag.length)).take openTag.length := by
          rw [List.take_take, Nat.min_eq_left (by rw [hlength]; simp)]
        rw [hopening, List.take_append_drop, List.take_append_drop]
      · rw [Text.toLower, List.map_take, ← Text.toLower, hmiddle, List.append_assoc, List.take_left]
      · rw [Text.toLower, List.map_drop, ← Text.toLower, hlength, hmiddle, List.drop_left]
  · cases h

theorem toLower_trim_of_wrapped {s inner : List Char} (h : RawKind.ofRaw s = .wrapped inner) :
    Text.toLower (Text.trim s) = openTag ++ Text.toLower inner ++ closeTag := by
  obtain ⟨before, after, htrim, hbefore, hafter⟩ := exists_tags_of_wrapped h
  rw [htrim, ← hbefore, ← hafter]
  simp only [Text.toLower, List.map_append]

open Text (folded)

theorem folded_of_toLower_trim {s : String} {t : List Char}
    (h : Text.toLower (Text.trim s.toList) = t) :
    folded s = t.filter fun c => !Text.isBlankChar c := by
  rw [← Text.folded_ofList_trim, Text.folded_eq, String.toList_ofList, h]

theorem folded_opening {write : Inline → String} {piece : InlinePiece}
    (h : piece.isOpening = true) : folded (piece.written write) = folded "<u>" := by
  cases piece with
  | inline i => cases h
  | raw s =>
    rw [InlinePiece.isOpening, beq_iff_eq] at h
    exact folded_of_toLower_trim (toLower_trim_of_opening h)

theorem folded_closing {write : Inline → String} {piece : InlinePiece}
    (h : piece.isClosing = true) : folded (piece.written write) = folded "</u>" := by
  cases piece with
  | inline i => cases h
  | raw s =>
    rw [InlinePiece.isClosing, beq_iff_eq] at h
    exact folded_of_toLower_trim (toLower_trim_of_closing h)

theorem folded_plain (write : Inline → String) (piece : InlinePiece) :
    folded (piece.plain.written write) = folded (piece.written write) := by
  cases piece with
  | inline i => rfl
  | raw s =>
    rw [InlinePiece.plain, InlinePiece.written]
    split
    · next inner hkind =>
      have hwritten : Inline.written write (.underline [.text (String.ofList inner)]) =
          "<u>" ++ String.ofList inner ++ "</u>" := by
        rw [Inline.written, Inline.writtenAmong, Inline.written, Inline.writtenAmong,
          String.append_empty]
      rw [hwritten, folded_of_toLower_trim (toLower_trim_of_wrapped hkind), Text.folded_append,
        Text.folded_append, Text.folded_eq (String.ofList inner), String.toList_ofList,
        List.filter_append, List.filter_append]
      rfl
    all_goals rw [Inline.written]

theorem folded_writtenPieces_cons (write : Inline → String) (piece : InlinePiece)
    (pieces : List InlinePiece) :
    folded (writtenPieces write (piece :: pieces)) =
      folded (piece.written write) ++ folded (writtenPieces write pieces) := by
  rw [writtenPieces, List.map_cons, String.join_cons, Text.folded_append]
  rfl

theorem folded_writtenPieces_append (write : Inline → String) (ps qs : List InlinePiece) :
    folded (writtenPieces write (ps ++ qs)) =
      folded (writtenPieces write ps) ++ folded (writtenPieces write qs) := by
  induction ps with
  | nil => rfl
  | cons piece ps ih =>
    rw [List.cons_append, folded_writtenPieces_cons, ih, folded_writtenPieces_cons,
      List.append_assoc]

/-- **What is written stays the same** but for blanks and the case of letters. -/
theorem folded_writtenAmong_resolveUnderline (write : Inline → String)
    (pieces : List InlinePiece) :
    folded (Inline.writtenAmong write (resolveUnderline pieces)) =
      folded (writtenPieces write pieces) := by
  -- no tags, a closing tag alone, an opening tag alone, and a pair with nothing open in it
  induction pieces using pieces_induction with
  | plain pieces h =>
    rw [resolve_plain h]
    clear h
    induction pieces with
    | nil => rfl
    | cons piece pieces ih =>
      rw [List.map_cons, Inline.writtenAmong, Text.folded_append, folded_plain, ih,
        folded_writtenPieces_cons]
  | closing before tag after htag hopen ihBefore ihAfter =>
    rw [resolve_loose_closing htag hopen, Inline.writtenAmong_append, Inline.writtenAmong,
      Text.folded_append, Text.folded_append, ihBefore, ihAfter, folded_plain,
      folded_writtenPieces_append, folded_writtenPieces_cons]
  | opening before tag after htag hloose ihBefore ihAfter =>
    rw [resolve_open_opening htag hloose, Inline.writtenAmong_append, Inline.writtenAmong,
      Text.folded_append, Text.folded_append, ihBefore, ihAfter, Inline.written,
      folded_writtenPieces_append, folded_writtenPieces_cons, folded_opening htag]
  | pair outer first inner last after hfirst hlast hloose hopen ihInner ihWhole =>
    rw [resolve_pair hfirst hlast hloose hopen, ihWhole]
    simp only [List.append_assoc, List.cons_append, folded_writtenPieces_append,
      folded_writtenPieces_cons, folded_opening hfirst, folded_closing hlast]
    rw [InlinePiece.written, Inline.written, Text.folded_append, Text.folded_append, ihInner,
      List.append_assoc, List.append_assoc]

/-! ### Matching -/

/-- **Tags of underlining are matched like brackets, and nothing is lost.**  A closing tag makes a
pair with the last opening tag before it that is still open, if there is one, and the pair is what
is between, underlined; otherwise the closing tag is a text in its place, and so is an opening tag
that nothing behind it closes.  Pieces that are no tags are inlines by themselves.  With underlining
opened up each piece has left what it holds, in its order, and in writing the inlines are the pieces
but for blanks and the case of letters. -/
theorem resolveUnderline_matches_tags (pieces : List InlinePiece) :
    (∀ before closing after, pieces = before ++ closing :: after → closing.isClosing = true →
      (HasOpen before → ∃ outer opening inner, before = outer ++ opening :: inner ∧
        opening.isOpening = true ∧ HasNoLooseEnd inner ∧ ¬ HasOpen inner ∧
          resolveUnderline pieces =
            resolveUnderline (outer ++ .inline (.underline (resolveUnderline inner)) :: after)) ∧
      (¬ HasOpen before →
        resolveUnderline pieces =
          resolveUnderline before ++ closing.plain :: resolveUnderline after)) ∧
    (∀ before opening after, pieces = before ++ opening :: after → opening.isOpening = true →
      HasNoLooseEnd after →
        resolveUnderline pieces =
          resolveUnderline before ++ .text "<u>" :: resolveUnderline after) ∧
    ((∀ piece ∈ pieces, piece.isOpening = false ∧ piece.isClosing = false) →
      resolveUnderline pieces = pieces.map InlinePiece.plain) ∧
    AreLeftOf pieces (Inline.leavesAmong (resolveUnderline pieces)) ∧
    ∀ write : Inline → String,
      folded (Inline.writtenAmong write (resolveUnderline pieces)) =
        folded (writtenPieces write pieces) := by
  refine ⟨?_, ?_, resolve_plain, areLeftOf_resolveUnderline pieces,
    fun write => folded_writtenAmong_resolveUnderline write pieces⟩
  · rintro before closing after rfl hclosing
    constructor
    · intro hopen
      obtain ⟨outer, opening, inner, rfl, hopening, hloose, hinner⟩ := hopen.exists_latest
      exact ⟨outer, opening, inner, rfl, hopening, hloose, hinner,
        resolve_pair hopening hclosing hloose hinner⟩
    · intro hopen
      exact resolve_loose_closing hclosing hopen
  · rintro before opening after rfl hopening hloose
    exact resolve_open_opening hopening hloose

/-- A closing tag that closes nothing, an opening tag in another spelling that is never closed, both
tags in one piece, and a pair with an image and a break in it. -/
def unbalancedPieces : List InlinePiece :=
  [.raw "</u>", .inline (.text "a"), .raw " <U> ", .raw "<u>b</u>", .raw "<u>",
    .inline (.image "x" none), .inline .lineBreak, .raw "</U>", .raw "<i>"]

theorem resolveUnderline_matches_tags_unbalancedPieces :
    resolveUnderline unbalancedPieces =
        [.text "</u>", .text "a", .text "<u>", .underline [.text "b"],
          .underline [.image "x" none, .lineBreak], .text "<i>"] ∧
      ¬ HasOpen (unbalancedPieces.take 0) ∧
      resolveUnderline unbalancedPieces =
        .text "</u>" :: resolveUnderline (unbalancedPieces.drop 1) ∧
      HasNoLooseEnd (unbalancedPieces.drop 3) ∧
      resolveUnderline unbalancedPieces =
        resolveUnderline (unbalancedPieces.take 2) ++
          .text "<u>" :: resolveUnderline (unbalancedPieces.drop 3) ∧
      HasOpen (unbalancedPieces.take 7) ∧
      ∃ outer opening inner, unbalancedPieces.take 7 = outer ++ opening :: inner ∧
        resolveUnderline unbalancedPieces = resolveUnderline
          (outer ++ .inline (.underline (resolveUnderline inner)) :: unbalancedPieces.drop 8) := by
  have hnone : ¬ HasOpen (unbalancedPieces.take 0) := by
    rintro ⟨outer, opening, inner, hnil, -⟩
    simp at hnil
  have hloose : HasNoLooseEnd (unbalancedPieces.drop 3) := by
    intro front hfront
    have hall : ∀ front ∈ (unbalancedPieces.drop 3).inits,
        front.countP InlinePiece.isClosing ≤ front.countP InlinePiece.isOpening := by
      decide +kernel
    exact hall front ((List.mem_inits _ _).mpr hfront)
  have hopen : HasOpen (unbalancedPieces.take 7) := by
    refine ⟨unbalancedPieces.take 4, .raw "<u>", _, rfl, by decide +kernel, ?_⟩
    exact hasNoLooseEnd_of_forall (by decide +kernel)
  obtain ⟨hclosing, hopening, -⟩ := resolveUnderline_matches_tags unbalancedPieces
  refine ⟨by decide +kernel, hnone, ?_, hloose, ?_, hopen, ?_⟩
  · exact (hclosing (unbalancedPieces.take 0) (.raw "</u>") (unbalancedPieces.drop 1) rfl
      (by decide +kernel)).2 hnone
  · exact hopening (unbalancedPieces.take 2) (.raw " <U> ") (unbalancedPieces.drop 3) rfl
      (by decide +kernel) hloose
  · obtain ⟨outer, opening, inner, htake, -, -, -, hpair⟩ :=
      (hclosing (unbalancedPieces.take 7) (.raw "</U>") (unbalancedPieces.drop 8) rfl
        (by decide +kernel)).1 hopen
    exact ⟨outer, opening, inner, htake, hpair⟩

end Markdown

end Interdoc

import Interdoc.Proofs.Latex.Matching

/-!
# Blank lines

What stands in front of a blank line is read as if nothing followed, and what stands behind it as if
nothing came before.  The one thing that reaches over a blank line is an environment that is still
open there, so this is said of lines that are `Complete`: each environment that is opened in them,
outside of other ones, ends in them.

An environment that ends in lines ends at the same marker whatever follows these
(`collect_append`), so the segments of complete lines do not depend on what follows
(`Complete.segments_append`); and the gap that a blank line makes ends the paragraph before it
(`assemble_append_gap`).
-/

namespace Interdoc.Latex

variable {name opening : List Char} {lines : List Line}

/-! ### Environments that end -/

/-- Lines in which each environment ends that is read as one of their segments. -/
inductive Complete : List Line → Prop where
  | nil : Complete []
  | line {raw : Line} {lines : List Line} :
    opening? (significant raw) = none → Complete lines → Complete (raw :: lines)
  /-- The environment may end on the line that opens it; reading goes on behind its end. -/
  | environment {raw : Line} {name opening : List Char} {lines : List Line} :
    opening? (significant raw) = some (name, opening) → EndsIn name (opening :: lines) →
      Complete (collect name opening lines).2 → Complete (raw :: lines)

theorem not_mem_of_opening? {line : Line} (h : opening? line = some (name, opening)) :
    '\x7d' ∉ name := by
  unfold opening? at h
  split at h
  · cases h
  · split at h
    · cases h
    · dsimp only at h
      split at h
      · cases h
      · cases h
        intro hmem
        exact absurd (List.mem_takeWhile_imp hmem) (by decide)

/-- **A body that ends in lines** ends there whatever follows. -/
theorem collectBody_append_of_ends {depth : Nat} (h : scanLines name depth lines = none)
    (rest : List Line) :
    collectBody name depth (lines ++ rest) =
      let found := collectBody name depth lines
      { found with rest := found.rest ++ rest } := by
  induction lines generalizing depth with
  | nil => cases h
  | cons line lines ih =>
    rw [List.cons_append, collectBody, collectBody]
    cases hs : scanClose name depth 0 line with
    | closed before after => rfl
    | stillOpen during =>
      rw [scanLines, hs] at h
      dsimp only
      rw [ih h]

/-- **An environment that ends in lines** ends there whatever follows. -/
theorem collect_append (hname : '\x7d' ∉ name) (h : EndsIn name (opening :: lines))
    (rest : List Line) :
    collect name opening (lines ++ rest) =
      ((collect name opening lines).1, (collect name opening lines).2 ++ rest) := by
  have hscan := (scanLines_eq_none_iff hname).mpr h
  rw [collect, collect]
  cases hs : scanClose name 0 0 opening with
  | closed before after => rfl
  | stillOpen depth =>
    rw [scanLines, hs] at hscan
    dsimp only
    rw [collectBody_append_of_ends hscan]

/-! ### Segments -/

/-- What a line is that opens no environment does not depend on what follows. -/
theorem segments_of_opening?_eq_none {raw : Line} (h : opening? (significant raw) = none) :
    ∃ own : List Segment, ∀ lines, segments (raw :: lines) = own ++ segments lines := by
  by_cases hcomment : isComment raw = true
  · refine ⟨[], fun lines => ?_⟩
    rw [segments, if_pos hcomment]
    rfl
  by_cases hgap : ((significant raw).isEmpty || isPreamble (significant raw)) = true
  · refine ⟨[.gap], fun lines => ?_⟩
    rw [segments, if_neg hcomment, if_pos hgap]
    rfl
  cases hheading : heading? (significant raw) with
  | some heading =>
    refine ⟨[.heading heading.1 heading.2], fun lines => ?_⟩
    rw [segments, if_neg hcomment, if_neg hgap, hheading]
    rfl
  | none =>
    by_cases hrule : isRule (significant raw) = true
    · refine ⟨[.rule], fun lines => ?_⟩
      rw [segments, if_neg hcomment, if_neg hgap, hheading]
      dsimp only
      rw [if_pos hrule]
      rfl
    · refine ⟨[.text (significant raw)], fun lines => ?_⟩
      rw [segments, if_neg hcomment, if_neg hgap, hheading]
      dsimp only
      rw [if_neg hrule, h]
      rfl

/-- **What complete lines are** does not depend on what follows. -/
theorem Complete.segments_append (h : Complete lines) (rest : List Line) :
    segments (lines ++ rest) = segments lines ++ segments rest := by
  induction h with
  | nil => rw [segments]; rfl
  | line hraw _ ih =>
    obtain ⟨own, hown⟩ := segments_of_opening?_eq_none hraw
    rw [List.cons_append, hown, hown, ih, List.append_assoc]
  | environment hraw hends _ ih =>
    rw [List.cons_append, segments_of_opening? hraw, segments_of_opening? hraw,
      collect_append (not_mem_of_opening? hraw) hends, ih, List.cons_append]

/-- **A gap** ends the paragraph before it. -/
theorem assemble_append_gap (paragraph : List Inline) (segs others : List Segment) :
    assemble paragraph (segs ++ .gap :: others) =
      assemble paragraph segs ++ assemble [] others := by
  induction segs generalizing paragraph with
  | nil => rw [List.nil_append, assemble, assemble]
  | cons seg segs ih =>
    cases seg <;> simp only [List.cons_append, assemble, ih, List.append_assoc]

/-- **Lines are read apart** on both sides of a blank line, if no environment reaches over it. -/
theorem parseBlocks_append_blank {xs : List Line} (h : Complete xs) (ys : List Line) :
    parseBlocks (xs ++ [] :: ys) = parseBlocks xs ++ parseBlocks ys := by
  rw [parseBlocks, h.segments_append, segments_blank rfl, assemble_append_gap, parseBlocks,
    parseBlocks]

/-- A heading, a comment, an environment with another one of its name inside it and text behind its
end, a rule, and text in front of the blank line. -/
theorem parseBlocks_append_blank_environment :
    let xs : List Line := ["\\section\x7bA\x7d".toList, "% \\begin\x7bquote\x7d".toList,
      "\\begin\x7bquote\x7da".toList, "\\begin\x7bquote\x7db\\end\x7bquote\x7d".toList, [],
      "c\\end\x7bquote\x7d d".toList, "\\hrule".toList, "e".toList]
    let ys : List Line := ["\\begin\x7bquote\x7d".toList, "f".toList]
    Complete xs ∧ parseBlocks (xs ++ [] :: ys) = parseBlocks xs ++ parseBlocks ys := by
  intro xs ys
  have hends : EndsIn "quote".toList ("a".toList :: xs.drop 3) :=
    (scanLines_eq_none_iff (by decide)).mp (by decide)
  have hafter : Complete (collect "quote".toList "a".toList (xs.drop 3)).2 := by
    have hrest : (collect "quote".toList "a".toList (xs.drop 3)).2 = xs.drop 6 := by decide
    rw [hrest]
    exact .line (by decide) (.line (by decide) .nil)
  have hquote : Complete (xs.drop 2) := .environment (by decide) hends hafter
  have hxs : Complete xs := .line (by decide) (.line (by decide) hquote)
  exact ⟨hxs, parseBlocks_append_blank hxs ys⟩

end Interdoc.Latex

import Interdoc.Proofs.Latex.Composition

/-!
# Titles of headings

A line is a heading if it is a sectioning command and what follows the brace behind the command ends
with a brace (`heading?_eq_some_iff`).  The title is what stands between these two braces, whether
or not they are those of one group.  So it is the argument of the command exactly if the argument
ends at the end of the line (`parseBlocks_heading`); if more follows the argument, that is part of
the title.
-/

namespace Interdoc.Latex

/-! ### Groups -/

/-- The content of a group stands before the brace that ends the group, and the rest behind it. -/
theorem closeBrace?_eq_some {depth : Nat} {s content behind : List Char}
    (h : closeBrace? depth s = some (content, behind)) : s = content ++ '\x7d' :: behind := by
  fun_induction closeBrace? depth s generalizing content behind with
  | case1 => cases h
  | case2 => cases h
  | case3 depth c s ih =>
    obtain ⟨⟨content, behind⟩, hs, hr⟩ := Option.map_eq_some_iff.mp h
    cases hr
    rw [ih hs]
    rfl
  | case5 s =>
    cases h
    rfl
  | case4 depth s ih | case6 depth s ih | case7 depth c s _ _ _ _ _ ih =>
    obtain ⟨⟨content, behind⟩, hs, hr⟩ := Option.map_eq_some_iff.mp h
    cases hr
    rw [ih hs]
    rfl

theorem braced?_eq_some {s content behind : List Char}
    (h : braced? ('\x7b' :: s) = some (content, behind)) : s = content ++ '\x7d' :: behind :=
  closeBrace?_eq_some h

/-! ### Sectioning commands -/

/-- A line is a sectioning command for headings of a level, perhaps with a star, and an opening
brace with the text behind it. -/
def IsSectioning (line : Line) (level : Nat) (behind : List Char) : Prop :=
  ∃ command, (command, level) ∈ sectioning ∧
    (line = command ++ '\x7b' :: behind ∨ line = command ++ '*' :: '\x7b' :: behind)

theorem bracedLine?_eq_some_iff {s title : List Char} :
    bracedLine? s = some title ↔ s = '\x7b' :: (title ++ ['\x7d']) := by
  unfold bracedLine?
  split
  · rw [Text.stripSuffix?_eq_some_iff, List.cons_inj_right]
  · next h =>
    refine iff_of_false (by simp) fun hs => ?_
    exact h _ hs

theorem skipStar_eq_brace_iff {s t : List Char} :
    skipStar s = '\x7b' :: t ↔ s = '\x7b' :: t ∨ s = '*' :: '\x7b' :: t := by
  unfold skipStar
  split
  · simp
  · next h =>
    refine ⟨.inl, fun hs => hs.resolve_right fun hstar => ?_⟩
    exact h _ hstar

/-- What is behind the first sectioning command that fits decides whether a line is a heading. -/
theorem heading?_of_isSectioning {line body : List Char} {level : Nat}
    (h : IsSectioning line level (body ++ ['\x7d'])) :
    heading? line = some (level, Text.trim body) := by
  obtain ⟨command, hmem, hline⟩ := h
  have hrest : ∃ rest, line = command ++ rest ∧
      (rest = '\x7b' :: (body ++ ['\x7d']) ∨ rest = '*' :: '\x7b' :: (body ++ ['\x7d'])) := by
    rcases hline with rfl | rfl
    · exact ⟨_, rfl, .inl rfl⟩
    · exact ⟨_, rfl, .inr rfl⟩
  obtain ⟨rest, rfl, hrest⟩ := hrest
  have hs := Text.stripPrefix?_append command rest
  have ht := bracedLine?_eq_some_iff.mpr (skipStar_eq_brace_iff.mpr hrest)
  simp only [sectioning, List.mem_cons, Prod.mk.injEq, List.not_mem_nil, or_false] at hmem
  -- no command begins with another one
  rcases hmem with ⟨rfl, rfl⟩ | ⟨rfl, rfl⟩ | ⟨rfl, rfl⟩ | ⟨rfl, rfl⟩ | ⟨rfl, rfl⟩
  · exact heading?_of_stripPrefix? (List.nil_append _).symm rfl hs ht
  · exact heading?_of_stripPrefix? (List.take_append_drop 1 _).symm rfl hs ht
  · exact heading?_of_stripPrefix? (List.take_append_drop 2 _).symm rfl hs ht
  · exact heading?_of_stripPrefix? (List.take_append_drop 3 _).symm rfl hs ht
  · exact heading?_of_stripPrefix? (List.take_append_drop 4 _).symm rfl hs ht

/-- **A heading** is a sectioning command with braces at both ends of what follows. -/
theorem heading?_eq_some_iff {line : Line} {level : Nat} {title : List Char} :
    heading? line = some (level, title) ↔
      ∃ body, IsSectioning line level (body ++ ['\x7d']) ∧ title = Text.trim body := by
  constructor
  · intro h
    obtain ⟨⟨command, level'⟩, hmem, hentry⟩ := List.exists_of_findSome?_eq_some h
    dsimp only at hentry
    split at hentry
    · next rest hrest =>
      obtain ⟨body, hbody, htitle⟩ := Option.map_eq_some_iff.mp hentry
      cases htitle
      have hline := Text.stripPrefix?_eq_some_iff.mp hrest
      rcases skipStar_eq_brace_iff.mp (bracedLine?_eq_some_iff.mp hbody) with hr | hr
      · exact ⟨body, ⟨command, hmem, .inl (hr ▸ hline)⟩, rfl⟩
      · exact ⟨body, ⟨command, hmem, .inr (hr ▸ hline)⟩, rfl⟩
    · cases hentry
  · rintro ⟨body, hs, rfl⟩
    exact heading?_of_isSectioning hs

/-! ### Segments -/

theorem IsSectioning.isPreamble {line behind : List Char} {level : Nat}
    (h : IsSectioning line level behind) : (line.isEmpty || isPreamble line) = false := by
  obtain ⟨command, hmem, hline⟩ := h
  simp only [sectioning, List.mem_cons, Prod.mk.injEq, List.not_mem_nil, or_false] at hmem
  rcases hmem with ⟨rfl, rfl⟩ | ⟨rfl, rfl⟩ | ⟨rfl, rfl⟩ | ⟨rfl, rfl⟩ | ⟨rfl, rfl⟩ <;>
    rcases hline with rfl | rfl <;> rfl

/-- A line that is a heading is seen as nothing else. -/
theorem segments_of_heading? {raw : Line} {level : Nat} {title : List Char}
    (h : heading? (significant raw) = some (level, title)) (lines : List Line) :
    segments (raw :: lines) = .heading level title :: segments lines := by
  obtain ⟨body, hs, -⟩ := heading?_eq_some_iff.mp h
  have hgap := hs.isPreamble
  have hcomment : ¬ isComment raw = true := by
    intro hc
    rw [significant_of_isComment hc] at hgap
    exact absurd hgap (by decide)
  rw [segments, if_neg hcomment, hgap, h]
  rfl

theorem heading?_of_segments {raw : Line} {level : Nat} {title : List Char}
    (h : segments [raw] = [.heading level title]) :
    heading? (significant raw) = some (level, title) := by
  rw [segments] at h
  split at h
  · rw [segments] at h
    cases h
  split at h
  · cases h
  split at h
  · next hheading =>
    injection h with hseg
    injection hseg with hlevel htitle
    rw [hheading, hlevel, htitle]
  -- a rule, an environment or text
  · split at h
    · cases h
    · split at h <;> cases h

/-! ### Titles -/

/-- A title that is more than the argument of the command has more braces than that. -/
theorem trim_ne_of_braced? {body content behind : List Char} (hne : behind ≠ [])
    (h : braced? ('\x7b' :: (body ++ ['\x7d'])) = some (content, behind)) :
    Text.trim body ≠ Text.trim content := by
  obtain ⟨before, c, rfl⟩ := (List.eq_nil_or_concat behind).resolve_left hne
  have hsplit := braced?_eq_some h
  rw [List.concat_eq_append, ← List.cons_append, ← List.append_assoc] at hsplit
  have hbody : body = content ++ '\x7d' :: before := List.append_inj_left' hsplit rfl
  intro htrim
  have hcount := congrArg (List.count '\x7d') htrim
  rw [Text.count_trim (by decide), Text.count_trim (by decide), hbody, List.count_append,
    List.count_cons_self] at hcount
  omega

/-- **The title of a heading is the argument of its command exactly if nothing follows the argument
on the line.** -/
theorem parseBlocks_heading {raw : Line} {level : Nat} {title : List Char}
    (h : segments [raw] = [.heading level title]) :
    (∀ rest, parseBlocks (raw :: rest) = .heading level (tokenize title) :: parseBlocks rest) ∧
      ∃ body, IsSectioning (significant raw) level (body ++ ['\x7d']) ∧ title = Text.trim body ∧
        ((∃ content behind, braced? ('\x7b' :: (body ++ ['\x7d'])) = some (content, behind) ∧
            title = Text.trim content) ↔
          braced? ('\x7b' :: (body ++ ['\x7d'])) = some (body, [])) := by
  have hheading := heading?_of_segments h
  obtain ⟨body, hs, rfl⟩ := heading?_eq_some_iff.mp hheading
  constructor
  · intro rest
    rw [parseBlocks, segments_of_heading? hheading, assemble, parseBlocks]
    rfl
  · refine ⟨body, hs, rfl, ?_, fun hbraced => ⟨body, [], hbraced, rfl⟩⟩
    rintro ⟨content, behind, hbraced, htrim⟩
    -- text behind the argument would be part of the title
    have hbehind : behind = [] := by
      by_contra hne
      exact trim_ne_of_braced? hne hbraced htrim
    subst hbehind
    have hbody : body = content := List.append_cancel_right (braced?_eq_some hbraced)
    rw [hbraced, hbody]

/-- A heading with a star, a group and hidden braces in its title, and a comment behind it. -/
theorem parseBlocks_heading_group :
    let raw := " \\subsection*\x7b A \\textbf\x7bb\x7d \\\x7d \x7d % c\x7d".toList
    let title := "A \\textbf\x7bb\x7d \\\x7d".toList
    segments [raw] = [.heading 2 title] ∧
      parseBlocks [raw, "d".toList] = .heading 2 (tokenize title) :: parseBlocks ["d".toList] := by
  intro raw title
  have hheading : heading? (significant raw) = some (2, title) := by decide
  have hsegments : segments [raw] = [.heading 2 title] := by
    rw [segments_of_heading? hheading, segments]
  exact ⟨hsegments, (parseBlocks_heading hsegments).1 _⟩

/-- **A label behind the argument** becomes part of the title, with the braces between them. -/
theorem segments_labelled_heading :
    let line := "\\section\x7bA\x7d\\label\x7bsec:a\x7d".toList
    IsSectioning line 1 "A\x7d\\label\x7bsec:a\x7d".toList ∧
      braced? "\x7bA\x7d\\label\x7bsec:a\x7d".toList =
        some ("A".toList, "\\label\x7bsec:a\x7d".toList) ∧
      segments [line] = [.heading 1 "A\x7d\\label\x7bsec:a".toList] ∧
      parse line = ⟨[.heading 1 [.text "A\x7d\\label\x7bsec:a"]]⟩ := by
  intro line
  have hheading : heading? (significant line) = some (1, "A\x7d\\label\x7bsec:a".toList) := by
    decide
  have hnil : segments [] = [] := by rw [segments]
  refine ⟨⟨"\\section".toList, by decide, .inl rfl⟩, by decide, ?_, ?_⟩
  · rw [segments_of_heading? hheading, hnil]
  · have hlines : Text.lines line = [line] := by decide
    rw [parse, hlines, parseBlocks, segments_of_heading? hheading, hnil, assemble, assemble]
    decide +kernel

end Interdoc.Latex

import Interdoc.Text.Blank
import Mathlib.Data.List.Infix

/-!
# Splitting at line feeds

`splitOn` cuts a text at a separator and `join` glues the pieces together again
(`join_splitOn`), so splitting what was joined gives the pieces of the parts
(`splitOn_join`).

A text without carriage returns has the pieces between its line feeds as its lines, except that a
line feed at the end starts no line (`lines_eq_splitOn`, `lines_append_lineFeed`).
-/

namespace Interdoc.Text

/-! ### Pieces -/

theorem splitOn_ne_nil (sep : Char) (s : List Char) : splitOn sep s ≠ [] := by
  cases s with
  | nil => simp [splitOn]
  | cons c s =>
    rw [splitOn]
    split
    · exact List.cons_ne_nil _ _
    · split <;> exact List.cons_ne_nil _ _

theorem splitOn_cons_sep (sep : Char) (s : List Char) :
    splitOn sep (sep :: s) = [] :: splitOn sep s := by
  rw [splitOn, if_pos rfl]

/-- A character that is no separator goes to the first piece. -/
theorem splitOn_cons_of_ne {sep c : Char} (h : c ≠ sep) {s first : List Char}
    {rest : List (List Char)} (hs : splitOn sep s = first :: rest) :
    splitOn sep (c :: s) = (c :: first) :: rest := by
  rw [splitOn, if_neg h, hs]

theorem splitOn_append_sep (sep : Char) (s t : List Char) :
    splitOn sep (s ++ sep :: t) = splitOn sep s ++ splitOn sep t := by
  induction s with
  | nil => rw [List.nil_append, splitOn_cons_sep, splitOn, List.singleton_append]
  | cons c s ih =>
    by_cases h : c = sep
    · rw [h, List.cons_append, splitOn_cons_sep, splitOn_cons_sep, ih, List.cons_append]
    · obtain ⟨first, rest, hs⟩ := List.exists_cons_of_ne_nil (splitOn_ne_nil sep s)
      rw [hs, List.cons_append] at ih
      rw [List.cons_append, splitOn_cons_of_ne h ih, splitOn_cons_of_ne h hs, List.cons_append]

theorem splitOn_of_not_mem {sep : Char} {s : List Char} (h : sep ∉ s) : splitOn sep s = [s] := by
  induction s with
  | nil => rfl
  | cons c s ih =>
    rw [List.mem_cons, not_or] at h
    exact splitOn_cons_of_ne (Ne.symm h.1) (ih h.2)

/-- A text without the separator in front is part of the first piece. -/
theorem splitOn_append_of_not_mem {sep : Char} {s : List Char} (h : sep ∉ s)
    {t first : List Char} {rest : List (List Char)} (ht : splitOn sep t = first :: rest) :
    splitOn sep (s ++ t) = (s ++ first) :: rest := by
  induction s with
  | nil => exact ht
  | cons c s ih =>
    rw [List.mem_cons, not_or] at h
    exact splitOn_cons_of_ne (Ne.symm h.1) (ih h.2)

theorem join_cons {sep : List Char} (s : List Char) {rest : List (List Char)} (h : rest ≠ []) :
    join sep (s :: rest) = s ++ sep ++ join sep rest := by
  cases rest with
  | nil => exact absurd rfl h
  | cons t rest => rw [join]; exact List.cons_ne_nil _ _

/-- **Joining the pieces gives the text back.** -/
theorem join_splitOn (sep : Char) (s : List Char) : join [sep] (splitOn sep s) = s := by
  induction s with
  | nil => rfl
  | cons c s ih =>
    by_cases h : c = sep
    · rw [h, splitOn_cons_sep, join_cons _ (splitOn_ne_nil sep s), ih]
      rfl
    · obtain ⟨first, rest, hs⟩ := List.exists_cons_of_ne_nil (splitOn_ne_nil sep s)
      rw [splitOn_cons_of_ne h hs]
      rw [hs] at ih
      cases rest with
      | nil => rw [join] at ih ⊢; rw [ih]
      | cons second rest =>
        rw [join_cons _ (List.cons_ne_nil _ _)] at ih ⊢
        rw [← ih]
        rfl

/-- **Splitting what was joined** gives the pieces of the parts. -/
theorem splitOn_join (sep : Char) {parts : List (List Char)} (h : parts ≠ []) :
    splitOn sep (join [sep] parts) = parts.flatMap (splitOn sep) := by
  induction parts with
  | nil => exact absurd rfl h
  | cons s parts ih =>
    cases parts with
    | nil => rw [join, List.flatMap_cons, List.flatMap_nil, List.append_nil]
    | cons t parts =>
      rw [join_cons _ (List.cons_ne_nil _ _), List.append_assoc, List.singleton_append,
        splitOn_append_sep, ih (List.cons_ne_nil _ _), ← List.flatMap_cons]

/-- Joining pieces without separators can be undone. -/
theorem splitOn_join_of_not_mem {sep : Char} {parts : List (List Char)}
    (h : ∀ p ∈ parts, sep ∉ p) (hne : parts ≠ []) : splitOn sep (join [sep] parts) = parts := by
  rw [splitOn_join sep hne]
  clear hne
  induction parts with
  | nil => rfl
  | cons p parts ih =>
    rw [List.forall_mem_cons] at h
    rw [List.flatMap_cons, splitOn_of_not_mem h.1, ih h.2, List.singleton_append]

/-- Every piece stands in the text. -/
theorem infix_of_mem_splitOn {sep : Char} {s p : List Char} (h : p ∈ splitOn sep s) :
    p <:+: s := by
  induction s generalizing p with
  | nil =>
    rw [splitOn, List.mem_singleton] at h
    rw [h]
  | cons c s ih =>
    by_cases hc : c = sep
    · rw [hc, splitOn_cons_sep, List.mem_cons] at h
      rcases h with rfl | h
      · exact List.nil_infix
      · exact (ih h).trans (List.suffix_cons c s).isInfix
    · obtain ⟨first, rest, hs⟩ := List.exists_cons_of_ne_nil (splitOn_ne_nil sep s)
      rw [splitOn_cons_of_ne hc hs, List.mem_cons] at h
      rcases h with rfl | h
      · -- the first piece of the rest starts the rest
        have hj := join_splitOn sep s
        rw [hs] at hj
        refine List.IsPrefix.isInfix ?_
        rw [List.cons_prefix_cons]
        refine ⟨rfl, ?_⟩
        rw [← hj]
        cases rest with
        | nil => exact List.prefix_rfl
        | cons second rest =>
          rw [join_cons _ (List.cons_ne_nil _ _), List.append_assoc]
          exact List.prefix_append first _
      · exact (ih (hs ▸ List.mem_cons_of_mem _ h)).trans (List.suffix_cons c s).isInfix

/-- The separator stands in no piece. -/
theorem not_mem_of_mem_splitOn {sep : Char} {s p : List Char} (h : p ∈ splitOn sep s) :
    sep ∉ p := by
  induction s generalizing p with
  | nil =>
    rw [splitOn, List.mem_singleton] at h
    rw [h]
    exact List.not_mem_nil
  | cons c s ih =>
    by_cases hc : c = sep
    · rw [hc, splitOn_cons_sep, List.mem_cons] at h
      rcases h with rfl | h
      · exact List.not_mem_nil
      · exact ih h
    · obtain ⟨first, rest, hs⟩ := List.exists_cons_of_ne_nil (splitOn_ne_nil sep s)
      rw [hs] at ih
      rw [splitOn_cons_of_ne hc hs, List.mem_cons] at h
      rcases h with rfl | h
      · rw [List.mem_cons, not_or]
        exact ⟨Ne.symm hc, ih List.mem_cons_self⟩
      · exact ih (List.mem_cons_of_mem _ h)

/-- Every other character stands in a piece. -/
theorem exists_mem_splitOn {sep c : Char} (hne : c ≠ sep) {s : List Char} (h : c ∈ s) :
    ∃ p ∈ splitOn sep s, c ∈ p := by
  obtain ⟨s, t, rfl⟩ := List.append_of_mem h
  obtain ⟨first, rest, ht⟩ := List.exists_cons_of_ne_nil (splitOn_ne_nil sep t)
  induction s with
  | nil =>
    rw [List.nil_append, splitOn_cons_of_ne hne ht]
    exact ⟨_, List.mem_cons_self, List.mem_cons_self⟩
  | cons d s ih =>
    obtain ⟨p, hp, hc⟩ := ih (List.mem_append_right _ List.mem_cons_self)
    by_cases hd : d = sep
    · rw [List.cons_append, hd, splitOn_cons_sep]
      exact ⟨p, List.mem_cons_of_mem _ hp, hc⟩
    · -- the first piece grows, the others stay
      obtain ⟨q, qs, hq⟩ := List.exists_cons_of_ne_nil (splitOn_ne_nil sep (s ++ c :: t))
      rw [List.cons_append, splitOn_cons_of_ne hd hq]
      rw [hq] at hp
      rcases List.mem_cons.mp hp with rfl | hp
      · exact ⟨_, List.mem_cons_self, List.mem_cons_of_mem _ hc⟩
      · exact ⟨p, List.mem_cons_of_mem _ hp, hc⟩

/-! ### Lines -/

theorem chompReturn_of_not_mem {line : List Char} (h : '\r' ∉ line) : chompReturn line = line := by
  have hs : stripSuffix? ['\r'] line = none := by
    rw [stripSuffix?, Option.map_eq_none_iff]
    cases hl : line.reverse with
    | nil => rfl
    | cons c s =>
      have hc : c ∈ line := by
        rw [← List.mem_reverse, hl]
        exact List.mem_cons_self
      have hne : c ≠ '\r' := by
        rintro rfl
        exact h hc
      simp [stripPrefix?, hne.symm]
  rw [chompReturn, hs]
  rfl

/-- Pieces without carriage returns are lines, but an empty last one is not. -/
theorem linesOfPieces_concat {pieces : List (List Char)} (h : ∀ p ∈ pieces, '\r' ∉ p)
    (last : List Char) :
    linesOfPieces (pieces ++ [last]) = if last = [] then pieces else pieces ++ [last] := by
  induction pieces with
  | nil => cases last <;> rfl
  | cons p pieces ih =>
    have hp : chompReturn p = p := chompReturn_of_not_mem (h p List.mem_cons_self)
    have hne : pieces ++ [last] ≠ [] := by simp
    have hcons : linesOfPieces (p :: (pieces ++ [last]))
        = chompReturn p :: linesOfPieces (pieces ++ [last]) := by
      cases hq : pieces ++ [last] with
      | nil => exact absurd hq hne
      | cons q rest => rw [linesOfPieces]; exact List.cons_ne_nil _ _
    rw [List.cons_append, hcons, hp, ih fun q hq => h q (List.mem_cons_of_mem _ hq)]
    split <;> rfl

theorem not_mem_return_of_mem_splitOn {s p : List Char} (h : '\r' ∉ s)
    (hp : p ∈ splitOn '\n' s) : '\r' ∉ p :=
  fun hc => h ((infix_of_mem_splitOn hp).subset hc)

/-- The last character stands in the last piece. -/
theorem exists_splitOn_concat {sep c : Char} (hc : c ≠ sep) (s : List Char) :
    ∃ pieces last, splitOn sep (s ++ [c]) = pieces ++ [last ++ [c]] := by
  induction s with
  | nil =>
    refine ⟨[], [], ?_⟩
    exact splitOn_of_not_mem (by simpa using hc.symm)
  | cons d s ih =>
    obtain ⟨pieces, last, hp⟩ := ih
    by_cases hd : d = sep
    · refine ⟨[] :: pieces, last, ?_⟩
      rw [hd, List.cons_append, splitOn_cons_sep, hp, List.cons_append]
    · cases pieces with
      | nil => exact ⟨[], d :: last, splitOn_cons_of_ne hd hp⟩
      | cons p pieces => exact ⟨(d :: p) :: pieces, last, splitOn_cons_of_ne hd hp⟩

/-- The lines of a text that does not end with a line feed. -/
theorem lines_eq_splitOn {s : List Char} (h : '\r' ∉ s) {c : Char} (hc : c ≠ '\n')
    (hs : s.getLast? = some c) : lines s = splitOn '\n' s := by
  obtain ⟨t, rfl⟩ := List.getLast?_eq_some_iff.mp hs
  obtain ⟨pieces, last, hp⟩ := exists_splitOn_concat hc t
  have hr : ∀ p ∈ pieces, '\r' ∉ p := by
    intro p hm
    apply not_mem_return_of_mem_splitOn h
    rw [hp]
    exact List.mem_append_left _ hm
  rw [lines, hp, linesOfPieces_concat hr, if_neg (by simp)]

/-- A line feed at the end starts no line. -/
theorem lines_append_lineFeed {s : List Char} (h : '\r' ∉ s) :
    lines (s ++ ['\n']) = splitOn '\n' s := by
  rw [lines, splitOn_append_sep, splitOn,
    linesOfPieces_concat fun p hp => not_mem_return_of_mem_splitOn h hp, if_pos rfl]

end Interdoc.Text

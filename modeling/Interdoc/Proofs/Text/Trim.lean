import Interdoc.Text.Blank
import Mathlib.Data.List.DropRight

/-!
# Trimming and prefixes

`trimLeft` and `trimRight` are `List.dropWhile` and `List.rdropWhile` over the blank characters.
What a caller needs to know of a text is whether it has a blank at one of its ends: `SolidHead` and
`SolidLast` say that it has none.

`stripPrefix?` and `stripSuffix?` find exactly the texts that begin or end with what is looked for
(`stripPrefix?_eq_some_iff`).  The words that `fields` gives are the maximal runs of characters that
are no separators: `mem_fields` says that they hold none, and a run by itself is a single word.
-/

namespace Interdoc.Text

/-! ### Decisions about characters -/

/-- What holds of the characters of a text is decided by going through the text, not by going
through all characters there are. -/
instance (priority := 2000) decidableForallMemText (s : List Char) (p : Char → Prop)
    [DecidablePred p] : Decidable (∀ c ∈ s, p c) :=
  List.decidableBAll p s

instance (priority := 2000) decidableForallMemEnd (o : Option Char) (p : Char → Prop)
    [DecidablePred p] : Decidable (∀ c ∈ o, p c) :=
  Option.decidableForallMem o

/-! ### Ends without blanks -/

/-- A text does not start with a blank. -/
def SolidHead (s : List Char) : Prop :=
  ∀ c ∈ s.head?, isBlankChar c = false

/-- A text does not end with a blank. -/
def SolidLast (s : List Char) : Prop :=
  ∀ c ∈ s.getLast?, isBlankChar c = false

instance (s : List Char) : Decidable (SolidHead s) :=
  inferInstanceAs (Decidable (∀ c ∈ s.head?, isBlankChar c = false))

instance (s : List Char) : Decidable (SolidLast s) :=
  inferInstanceAs (Decidable (∀ c ∈ s.getLast?, isBlankChar c = false))

theorem solidHead_cons {c : Char} {s : List Char} : SolidHead (c :: s) ↔ isBlankChar c = false := by
  simp [SolidHead]

theorem solidLast_concat {c : Char} {s : List Char} :
    SolidLast (s ++ [c]) ↔ isBlankChar c = false := by
  simp [SolidLast]

theorem solidHead_append {s t : List Char} (hs : s ≠ []) : SolidHead (s ++ t) ↔ SolidHead s := by
  rw [SolidHead, SolidHead, List.head?_append_of_ne_nil _ hs]

theorem solidLast_append {s t : List Char} (ht : t ≠ []) : SolidLast (s ++ t) ↔ SolidLast t := by
  rw [SolidLast, SolidLast, List.getLast?_append_of_ne_nil _ ht]

theorem isBlank_iff {s : List Char} : isBlank s = true ↔ ∀ c ∈ s, isBlankChar c = true := by
  simp [isBlank]

/-! ### The left end -/

theorem trimLeft_eq_self {s : List Char} (h : SolidHead s) : trimLeft s = s := by
  cases s with
  | nil => rfl
  | cons c s =>
    rw [trimLeft, List.dropWhile_cons_of_neg]
    rw [solidHead_cons.mp h]
    decide

theorem solidHead_trimLeft (s : List Char) : SolidHead (trimLeft s) := by
  intro c hc
  have h := List.head?_dropWhile_not isBlankChar s
  rw [trimLeft] at hc
  rw [Option.mem_def.mp hc] at h
  simpa using h

theorem trimLeft_append_of_isBlank {s : List Char} (h : isBlank s = true) (t : List Char) :
    trimLeft (s ++ t) = trimLeft t := by
  rw [trimLeft, trimLeft, List.dropWhile_append_of_pos (isBlank_iff.mp h)]

theorem trimLeft_append {s : List Char} (h : trimLeft s ≠ []) (t : List Char) :
    trimLeft (s ++ t) = trimLeft s ++ t := by
  rw [trimLeft, List.dropWhile_append, if_neg]
  · rfl
  · rwa [List.isEmpty_iff]

theorem trimLeft_eq_nil_iff {s : List Char} : trimLeft s = [] ↔ isBlank s = true := by
  rw [trimLeft, List.dropWhile_eq_nil_iff, isBlank_iff]

/-- Blanks before a solid text are all that trimming takes. -/
theorem trimLeft_append_of_solidHead {t : List Char} (ht : SolidHead t) (s : List Char) :
    trimLeft (s ++ t) = trimLeft s ++ t := by
  by_cases hs : trimLeft s = []
  · rw [trimLeft_append_of_isBlank (trimLeft_eq_nil_iff.mp hs), trimLeft_eq_self ht, hs,
      List.nil_append]
  · exact trimLeft_append hs t

/-- A text is blanks and what trimming leaves of it. -/
theorem exists_blank_append_trimLeft (s : List Char) :
    ∃ w, isBlank w = true ∧ w ++ trimLeft s = s := by
  refine ⟨s.takeWhile isBlankChar, ?_, List.takeWhile_append_dropWhile⟩
  rw [isBlank_iff]
  intro c hc
  exact List.mem_takeWhile_imp hc

/-! ### The right end -/

theorem trimRight_eq_rdropWhile (s : List Char) : trimRight s = s.rdropWhile isBlankChar := rfl

theorem trimRight_eq_self {s : List Char} (h : SolidLast s) : trimRight s = s := by
  rw [trimRight_eq_rdropWhile, List.rdropWhile_eq_self_iff]
  intro hs
  rw [h _ (List.getLast?_eq_some_getLast hs)]
  decide

theorem solidLast_trimRight (s : List Char) : SolidLast (trimRight s) := by
  intro c hc
  rw [trimRight_eq_rdropWhile] at hc
  have hne : s.rdropWhile isBlankChar ≠ [] := by
    intro h
    rw [h] at hc
    exact absurd hc (by simp)
  have h := List.rdropWhile_last_not isBlankChar s hne
  rw [List.getLast?_eq_some_getLast hne, Option.mem_some_iff] at hc
  rw [hc] at h
  simpa using h

theorem trimRight_append_of_isBlank (s : List Char) {t : List Char} (h : isBlank t = true) :
    trimRight (s ++ t) = trimRight s := by
  rw [trimRight, trimRight, dropRightWhile, dropRightWhile, List.reverse_append,
    List.dropWhile_append_of_pos]
  intro c hc
  exact isBlank_iff.mp h c (List.mem_reverse.mp hc)

theorem trimRight_append {s t : List Char} (h : trimRight t ≠ []) :
    trimRight (s ++ t) = s ++ trimRight t := by
  rw [trimRight, dropRightWhile, List.reverse_append, List.dropWhile_append, if_neg]
  · rw [List.reverse_append, List.reverse_reverse]
    rfl
  · rw [trimRight, dropRightWhile] at h
    simpa using h

theorem trimRight_eq_nil_iff {s : List Char} : trimRight s = [] ↔ isBlank s = true := by
  rw [trimRight_eq_rdropWhile, List.rdropWhile_eq_nil_iff, isBlank_iff]

/-- Blanks after a solid text are all that trimming takes. -/
theorem trimRight_append_of_solidLast {s : List Char} (hs : SolidLast s) (t : List Char) :
    trimRight (s ++ t) = s ++ trimRight t := by
  by_cases ht : trimRight t = []
  · rw [trimRight_append_of_isBlank s (trimRight_eq_nil_iff.mp ht), trimRight_eq_self hs, ht,
      List.append_nil]
  · exact trimRight_append ht

theorem trimRight_isPrefix (s : List Char) : trimRight s <+: s := by
  rw [trimRight_eq_rdropWhile]
  exact List.rdropWhile_prefix isBlankChar s

/-- A text is what trimming leaves of it and blanks. -/
theorem exists_trimRight_append_blank (s : List Char) :
    ∃ w, isBlank w = true ∧ trimRight s ++ w = s := by
  obtain ⟨w, hw, hs⟩ := exists_blank_append_trimLeft s.reverse
  refine ⟨w.reverse, ?_, ?_⟩
  · rw [isBlank_iff] at hw ⊢
    intro c hc
    exact hw c (List.mem_reverse.mp hc)
  · show (trimLeft s.reverse).reverse ++ w.reverse = s
    rw [← List.reverse_append, hs, List.reverse_reverse]

/-! ### Both ends -/

theorem trim_eq_self {s : List Char} (h : SolidHead s) (h' : SolidLast s) : trim s = s := by
  rw [trim, trimLeft_eq_self h, trimRight_eq_self h']

theorem solidHead_trimRight {s : List Char} (h : SolidHead s) : SolidHead (trimRight s) := by
  obtain ⟨t, ht⟩ := trimRight_isPrefix s
  intro c hc
  apply h c
  rw [← ht, List.head?_append, Option.mem_def.mp hc]
  rfl

theorem solidHead_trim (s : List Char) : SolidHead (trim s) :=
  solidHead_trimRight (solidHead_trimLeft s)

theorem solidLast_trim (s : List Char) : SolidLast (trim s) :=
  solidLast_trimRight (trimLeft s)

@[simp]
theorem trim_trim (s : List Char) : trim (trim s) = trim s :=
  trim_eq_self (solidHead_trim s) (solidLast_trim s)

theorem trim_append_of_isBlank {s : List Char} (h : isBlank s = true) (t : List Char) :
    trim (s ++ t) = trim t := by
  rw [trim, trim, trimLeft_append_of_isBlank h]

theorem trim_isInfix (s : List Char) : trim s <:+: s :=
  (trimRight_isPrefix _).isInfix.trans (List.dropWhile_suffix isBlankChar).isInfix

theorem trim_eq_nil_iff {s : List Char} : trim s = [] ↔ isBlank s = true := by
  rw [trim, trimRight_eq_nil_iff]
  constructor
  · intro h
    obtain ⟨w, hw, hs⟩ := exists_blank_append_trimLeft s
    rw [isBlank_iff] at h hw ⊢
    intro c hc
    rw [← hs] at hc
    rcases List.mem_append.mp hc with hc | hc
    · exact hw c hc
    · exact h c hc
  · intro h
    rw [trimLeft_eq_nil_iff.mpr h]
    rfl

theorem trim_append_blank {s t : List Char} (h : isBlank t = true) : trim (s ++ t) = trim s := by
  rw [trim, trim]
  by_cases hs : trimLeft s = []
  · rw [trimLeft_append_of_isBlank (trimLeft_eq_nil_iff.mp hs), hs]
    exact trim_eq_nil_iff.mpr h
  · rw [trimLeft_append hs, trimRight_append_of_isBlank _ h]

/-- The ends can be trimmed in either order. -/
theorem trimLeft_trimRight (s : List Char) : trimLeft (trimRight s) = trim s := by
  obtain ⟨w, hw, hs⟩ := exists_trimRight_append_blank s
  have ht : trim s = trim (trimRight s) := by
    conv => lhs; rw [← hs]
    exact trim_append_blank hw
  have hl : SolidLast (trimLeft (trimRight s)) := by
    by_cases he : trimLeft (trimRight s) = []
    · rw [he]
      decide
    · obtain ⟨v, -, hv⟩ := exists_blank_append_trimLeft (trimRight s)
      have hr := solidLast_trimRight s
      rw [← hv] at hr
      exact (solidLast_append he).mp hr
  rw [ht, trim, trimRight_eq_self hl]

/-- No character is trimmed but blanks. -/
theorem count_trim {c : Char} (hc : isBlankChar c = false) (s : List Char) :
    (trim s).count c = s.count c := by
  have hblank {w : List Char} (hw : isBlank w = true) : w.count c = 0 := by
    refine List.count_eq_zero.mpr fun hmem => ?_
    rw [isBlank_iff.mp hw c hmem] at hc
    cases hc
  obtain ⟨v, hv, hs⟩ := exists_blank_append_trimLeft s
  obtain ⟨w, hw, ht⟩ := exists_trimRight_append_blank (trimLeft s)
  have hleft : s.count c = (trimLeft s).count c := by
    conv_lhs => rw [← hs, List.count_append, hblank hv, Nat.zero_add]
  have hright : (trimLeft s).count c = (trimRight (trimLeft s)).count c := by
    conv_lhs => rw [← ht, List.count_append, hblank hw, Nat.add_zero]
  rw [hleft, hright, trim]

/-! ### Prefixes and suffixes -/

theorem stripPrefix?_eq_some_iff {p s rest : List Char} :
    stripPrefix? p s = some rest ↔ s = p ++ rest := by
  induction p generalizing s with
  | nil => simp [stripPrefix?]
  | cons a p ih =>
    cases s with
    | nil => simp [stripPrefix?]
    | cons b s =>
      by_cases h : a = b
      · subst h; simp [stripPrefix?, ih]
      · simp [stripPrefix?, h, Ne.symm h]

theorem stripPrefix?_append (p s : List Char) : stripPrefix? p (p ++ s) = some s :=
  stripPrefix?_eq_some_iff.mpr rfl

theorem stripSuffix?_eq_some_iff {p s rest : List Char} :
    stripSuffix? p s = some rest ↔ s = rest ++ p := by
  rw [stripSuffix?, Option.map_eq_some_iff]
  constructor
  · rintro ⟨t, ht, rfl⟩
    rw [← List.reverse_inj, stripPrefix?_eq_some_iff.mp ht]
    simp
  · rintro rfl
    exact ⟨rest.reverse, stripPrefix?_eq_some_iff.mpr List.reverse_append, List.reverse_reverse _⟩

theorem stripSuffix?_append (s p : List Char) : stripSuffix? p (s ++ p) = some s :=
  stripSuffix?_eq_some_iff.mpr rfl

theorem startsWith_iff {p s : List Char} : startsWith p s = true ↔ p <+: s := by
  rw [startsWith, Option.isSome_iff_exists]
  constructor
  · rintro ⟨rest, h⟩
    exact ⟨rest, (stripPrefix?_eq_some_iff.mp h).symm⟩
  · rintro ⟨rest, h⟩
    exact ⟨rest, stripPrefix?_eq_some_iff.mpr h.symm⟩

theorem contains_iff {p s : List Char} : contains p s = true ↔ p <:+: s := by
  rw [contains]
  induction s with
  | nil => simp [splitOnce?]
  | cons c s ih =>
    rw [splitOnce?, List.infix_cons_iff, ← ih, ← startsWith_iff, startsWith]
    cases stripPrefix? p (c :: s) <;> simp

theorem stripPrefix?_eq_none_iff {p s : List Char} : stripPrefix? p s = none ↔ ¬ p <+: s := by
  rw [← startsWith_iff, startsWith]
  simp

theorem stripSuffix?_eq_none {c : Char} {s : List Char} (h : s.getLast? ≠ some c) :
    stripSuffix? [c] s = none := by
  rw [stripSuffix?, Option.map_eq_none_iff, stripPrefix?_eq_none_iff]
  rintro ⟨t, ht⟩
  refine h ?_
  rw [← List.head?_reverse, ← ht]
  rfl

/-! ### Words -/

/-- The words of a text are not empty and hold no separators. -/
theorem mem_fields {p : Char → Bool} {s w : List Char} (h : w ∈ fields p s) :
    w ≠ [] ∧ ∀ c ∈ w, p c = false := by
  have hcons {c : Char} (hc : ¬ p c = true) {w : List Char} (hw : ∀ d ∈ w, p d = false) :
      c :: w ≠ [] ∧ ∀ d ∈ c :: w, p d = false :=
    ⟨List.cons_ne_nil _ _, List.forall_mem_cons.mpr ⟨by simpa using hc, hw⟩⟩
  fun_induction fields p s generalizing w with
  | case1 => cases h
  | case2 c s hc ih => exact ih h
  | case3 c hc =>
    rw [List.mem_singleton] at h
    exact h ▸ hcons hc (List.forall_mem_nil _)
  | case4 c hc d s hd ih =>
    rcases List.mem_cons.mp h with rfl | h
    · exact hcons hc (List.forall_mem_nil _)
    · exact ih h
  | case5 c hc d s hd hs ih =>
    simp only [hs, List.mem_singleton] at h
    exact h ▸ hcons hc (List.forall_mem_nil _)
  | case6 c hc d s hd first rest hs ih =>
    -- the character joins the first of the words behind it
    simp only [hs, List.mem_cons] at h ih
    rcases h with rfl | h
    · exact hcons hc (ih (.inl rfl)).2
    · exact ih (.inr h)

/-- A text without separators is a single word. -/
theorem fields_of_forall {p : Char → Bool} {s : List Char} (hne : s ≠ [])
    (h : ∀ c ∈ s, p c = false) : fields p s = [s] := by
  induction s with
  | nil => exact absurd rfl hne
  | cons c s ih =>
    rw [List.forall_mem_cons] at h
    cases s with
    | nil => rw [fields, if_neg (by simp [h.1])]
    | cons d s =>
      have hs := ih (List.cons_ne_nil _ _) h.2
      rw [fields, if_neg (by simp [h.1])]
      simp only [h.2 d List.mem_cons_self, hs]
      rfl

end Interdoc.Text

import Interdoc.Document.Normalize
import Interdoc.Proofs.Document.NormalForm

/-!
# Inlines on one line

A format that writes the inlines of a paragraph on one line cannot keep the line endings inside
their strings.  `Inline.spaceEnds` is what it keeps instead: every line feed and every carriage
return as a space.  `Inline.OneLine` says of an inline that there is nothing to replace, and the
inlines with that property are exactly those that `spaceEnds` leaves alone
(`oneLineList_spaceEndsList`, `spaceEndsList_eq_self`).
-/

namespace Interdoc

namespace Text

/-- A string without line endings. -/
def OneLine (s : String) : Prop :=
  '\n' ∉ s.toList ∧ '\r' ∉ s.toList

instance (s : String) : Decidable (OneLine s) :=
  inferInstanceAs (Decidable (_ ∧ _))

/-- A line ending as a space. -/
def spaceEnd (c : Char) : Char :=
  if c = '\n' ∨ c = '\r' then ' ' else c

/-- A string with its line endings as spaces. -/
def spaceEnds (s : String) : String :=
  String.ofList (s.toList.map spaceEnd)

theorem spaceEnd_of_ne {c : Char} (h : c ≠ '\n') (h' : c ≠ '\r') : spaceEnd c = c := by
  rw [spaceEnd, if_neg]
  rintro (hc | hc)
  · exact h hc
  · exact h' hc

theorem ne_spaceEnd (c : Char) : '\n' ≠ spaceEnd c ∧ '\r' ≠ spaceEnd c := by
  rw [spaceEnd]
  split
  · decide
  · next h =>
    rw [not_or] at h
    exact ⟨Ne.symm h.1, Ne.symm h.2⟩

theorem oneLine_spaceEnds (s : String) : OneLine (spaceEnds s) := by
  have h (d : Char) (hd : ∀ c, d ≠ spaceEnd c) : d ∉ (spaceEnds s).toList := by
    rw [spaceEnds, String.toList_ofList, List.mem_map]
    rintro ⟨c, _, hc⟩
    exact hd c hc.symm
  exact ⟨h '\n' fun c => (ne_spaceEnd c).1, h '\r' fun c => (ne_spaceEnd c).2⟩

theorem spaceEnds_eq_self {s : String} (h : OneLine s) : spaceEnds s = s := by
  have hc : ∀ c ∈ s.toList, spaceEnd c = id c := by
    intro c hc
    apply spaceEnd_of_ne
    · rintro rfl; exact h.1 hc
    · rintro rfl; exact h.2 hc
  rw [spaceEnds, List.map_congr_left hc, List.map_id, String.ofList_toList]

theorem OneLine.append {s t : String} (hs : OneLine s) (ht : OneLine t) : OneLine (s ++ t) := by
  rw [OneLine, String.toList_append, List.mem_append, List.mem_append, not_or, not_or]
  exact ⟨⟨hs.1, ht.1⟩, ⟨hs.2, ht.2⟩⟩

theorem OneLine.of_subset {s : String} (h : OneLine s) {t : List Char} (ht : t ⊆ s.toList) :
    OneLine (String.ofList t) := by
  rw [OneLine, String.toList_ofList]
  exact ⟨fun hn => h.1 (ht hn), fun hr => h.2 (ht hr)⟩

end Text

namespace Inline

mutual

/-- An inline with the line endings in all its strings as spaces. -/
def spaceEnds : Inline → Inline
  | .text s => .text (Text.spaceEnds s)
  | .strong inlines => .strong (spaceEndsList inlines)
  | .emphasis inlines => .emphasis (spaceEndsList inlines)
  | .underline inlines => .underline (spaceEndsList inlines)
  | .code s => .code (Text.spaceEnds s)
  | .lineBreak => .lineBreak
  | .link href inlines => .link (Text.spaceEnds href) (spaceEndsList inlines)
  | .image src alt => .image (Text.spaceEnds src) (alt.map Text.spaceEnds)

/-- A sequence of inlines with the line endings in all their strings as spaces. -/
def spaceEndsList : List Inline → List Inline
  | [] => []
  | i :: rest => spaceEnds i :: spaceEndsList rest

end

mutual

/-- No string in an inline has a line ending. -/
def OneLine : Inline → Prop
  | .text s => Text.OneLine s
  | .strong inlines => OneLineList inlines
  | .emphasis inlines => OneLineList inlines
  | .underline inlines => OneLineList inlines
  | .code s => Text.OneLine s
  | .lineBreak => True
  | .link href inlines => Text.OneLine href ∧ OneLineList inlines
  | .image src alt => Text.OneLine src ∧ ∀ a ∈ alt, Text.OneLine a

/-- No string in a sequence of inlines has a line ending. -/
def OneLineList : List Inline → Prop
  | [] => True
  | i :: rest => OneLine i ∧ OneLineList rest

end

mutual

/-- `OneLine` as a decision. -/
def decOneLine : ∀ i : Inline, Decidable (OneLine i)
  | .text s => inferInstanceAs (Decidable (Text.OneLine s))
  | .strong inlines => decOneLineList inlines
  | .emphasis inlines => decOneLineList inlines
  | .underline inlines => decOneLineList inlines
  | .code s => inferInstanceAs (Decidable (Text.OneLine s))
  | .lineBreak => isTrue trivial
  | .link href inlines =>
    have := decOneLineList inlines
    inferInstanceAs (Decidable (Text.OneLine href ∧ OneLineList inlines))
  | .image src alt =>
    inferInstanceAs (Decidable (Text.OneLine src ∧ ∀ a ∈ alt, Text.OneLine a))

/-- `OneLineList` as a decision. -/
def decOneLineList : ∀ inlines : List Inline, Decidable (OneLineList inlines)
  | [] => isTrue trivial
  | i :: rest =>
    have := decOneLine i
    have := decOneLineList rest
    inferInstanceAs (Decidable (OneLine i ∧ OneLineList rest))

end

instance (inlines : List Inline) : Decidable (OneLineList inlines) := decOneLineList inlines

theorem oneLineList_iff {xs : List Inline} : OneLineList xs ↔ ∀ i ∈ xs, OneLine i := by
  induction xs with
  | nil => simp [OneLineList]
  | cons x xs ih => rw [OneLineList, ih, List.forall_mem_cons]

mutual

theorem oneLine_spaceEnds : ∀ i : Inline, OneLine i.spaceEnds
  | .strong xs => by rw [spaceEnds, OneLine]; exact oneLineList_spaceEndsList xs
  | .emphasis xs => by rw [spaceEnds, OneLine]; exact oneLineList_spaceEndsList xs
  | .underline xs => by rw [spaceEnds, OneLine]; exact oneLineList_spaceEndsList xs
  | .link href xs => by
    rw [spaceEnds, OneLine]
    exact ⟨Text.oneLine_spaceEnds href, oneLineList_spaceEndsList xs⟩
  | .text s => by rw [spaceEnds, OneLine]; exact Text.oneLine_spaceEnds s
  | .code s => by rw [spaceEnds, OneLine]; exact Text.oneLine_spaceEnds s
  | .lineBreak => by simp [spaceEnds, OneLine]
  | .image src alt => by
    rw [spaceEnds, OneLine]
    refine ⟨Text.oneLine_spaceEnds src, ?_⟩
    intro a ha
    obtain ⟨b, _, rfl⟩ := Option.map_eq_some_iff.mp ha
    exact Text.oneLine_spaceEnds b

/-- **Replacing line endings leaves none.** -/
theorem oneLineList_spaceEndsList : ∀ xs : List Inline, OneLineList (spaceEndsList xs)
  | [] => by simp [spaceEndsList, OneLineList]
  | i :: rest => by
    rw [spaceEndsList, OneLineList]
    exact ⟨oneLine_spaceEnds i, oneLineList_spaceEndsList rest⟩

end

mutual

theorem spaceEnds_eq_self : ∀ {i : Inline}, OneLine i → i.spaceEnds = i
  | .strong xs, h => by rw [spaceEnds, spaceEndsList_eq_self (by rwa [OneLine] at h)]
  | .emphasis xs, h => by rw [spaceEnds, spaceEndsList_eq_self (by rwa [OneLine] at h)]
  | .underline xs, h => by rw [spaceEnds, spaceEndsList_eq_self (by rwa [OneLine] at h)]
  | .link href xs, h => by
    rw [OneLine] at h
    rw [spaceEnds, Text.spaceEnds_eq_self h.1, spaceEndsList_eq_self h.2]
  | .text s, h => by rw [spaceEnds, Text.spaceEnds_eq_self (by rwa [OneLine] at h)]
  | .code s, h => by rw [spaceEnds, Text.spaceEnds_eq_self (by rwa [OneLine] at h)]
  | .lineBreak, _ => by rw [spaceEnds]
  | .image src none, h => by
    rw [OneLine] at h
    rw [spaceEnds, Text.spaceEnds_eq_self h.1, Option.map_none]
  | .image src (some alt), h => by
    rw [OneLine] at h
    rw [spaceEnds, Text.spaceEnds_eq_self h.1, Option.map_some,
      Text.spaceEnds_eq_self (h.2 alt rfl)]

/-- **Where there are no line endings, none is replaced.** -/
theorem spaceEndsList_eq_self : ∀ {xs : List Inline}, OneLineList xs → spaceEndsList xs = xs
  | [], _ => by rw [spaceEndsList]
  | i :: rest, h => by
    rw [OneLineList] at h
    rw [spaceEndsList, spaceEnds_eq_self h.1, spaceEndsList_eq_self h.2]

end

theorem oneLineList_cons {i : Inline} (hi : OneLine i) {rest : List Inline}
    (h : OneLineList rest) : OneLineList (cons i rest) := by
  rcases i.isText_eq_false_or with hit | ⟨s, rfl⟩
  · rw [cons_of_not_isText hit, OneLineList]
    exact ⟨hi, h⟩
  by_cases hs : s = ""
  · rwa [hs, cons_empty]
  rcases head?_isText_or rest with hrest | ⟨t, tail, rfl⟩
  · rw [cons_text_of_ne hs hrest, OneLineList]
    exact ⟨hi, h⟩
  · rw [OneLineList, OneLine] at h
    rw [OneLine] at hi
    rw [cons_text_text hs, OneLineList, OneLine]
    exact ⟨hi.append h.1, h.2⟩

mutual

theorem oneLine_normalize : ∀ {i : Inline}, OneLine i → OneLine (normalize i)
  | .strong xs, h => by
    rw [OneLine] at h; rw [normalize, OneLine]; exact oneLineList_normalizeList h
  | .emphasis xs, h => by
    rw [OneLine] at h; rw [normalize, OneLine]; exact oneLineList_normalizeList h
  | .underline xs, h => by
    rw [OneLine] at h; rw [normalize, OneLine]; exact oneLineList_normalizeList h
  | .link href xs, h => by
    rw [OneLine] at h; rw [normalize, OneLine]; exact ⟨h.1, oneLineList_normalizeList h.2⟩
  | .text _, h | .code _, h | .lineBreak, h | .image _ _, h => by rwa [normalize]

/-- The normal form has no other line endings. -/
theorem oneLineList_normalizeList :
    ∀ {xs : List Inline}, OneLineList xs → OneLineList (normalizeList xs)
  | [], _ => by rw [normalizeList, OneLineList]; trivial
  | i :: rest, h => by
    rw [OneLineList] at h
    rw [normalizeList_cons]
    exact oneLineList_cons (oneLine_normalize h.1) (oneLineList_normalizeList h.2)

end

end Inline

end Interdoc

import Interdoc.Proofs.Text.Trim

/-!
# Occurrences

`occurrences p s` is the number of places of `s` at which `p` begins.  Parts of a text have no more
occurrences than the text (`occurrences_append_le`).  A text whose first character does not come
again in it cannot overlap with itself, so counting it from the left without overlap finds all of
its occurrences (`count_eq_occurrences`); and blanks around a text do not matter to what is without
blanks (`occurrences_trim`).

A text is often written token by token, and one kind of token is then replaced by another text.  The
result is the text with the other tokens (`replace_flatMap`), provided that the text to be replaced
begins nowhere in the tokens that stay (`Avoids`).  That is a condition on each token alone: it is
about all texts that may follow it.
-/

namespace Interdoc.Text

/-- The number of places in a text at which `p` begins. -/
def occurrences (p : List Char) : List Char → Nat
  | [] => 0
  | c :: s => (if p <+: c :: s then 1 else 0) + occurrences p s

variable {p w : List Char} {a : Char}

theorem occurrences_cons_of_not {c : Char} {s : List Char} (h : ¬ p <+: c :: s) :
    occurrences p (c :: s) = occurrences p s := by
  rw [occurrences, if_neg h, Nat.zero_add]

theorem occurrences_cons_of {c : Char} {s : List Char} (h : p <+: c :: s) :
    occurrences p (c :: s) = occurrences p s + 1 := by
  rw [occurrences, if_pos h, Nat.add_comm]

/-! ### Parts of a text -/

/-- **What begins in a part** begins in the whole. -/
theorem occurrences_append_le (p s t : List Char) :
    occurrences p s + occurrences p t ≤ occurrences p (s ++ t) := by
  induction s with
  | nil => rw [occurrences, Nat.zero_add, List.nil_append]
  | cons c s ih =>
    rw [List.cons_append]
    by_cases h : p <+: c :: s
    · have hwhole : p <+: c :: (s ++ t) := h.trans (List.prefix_append (c :: s) t)
      rw [occurrences_cons_of h, occurrences_cons_of hwhole]
      omega
    · rw [occurrences_cons_of_not h, occurrences]
      omega

theorem occurrences_le_of_isInfix {s t : List Char} (h : s <:+: t) :
    occurrences p s ≤ occurrences p t := by
  obtain ⟨front, back, rfl⟩ := h
  have hfront := occurrences_append_le p front s
  have hback := occurrences_append_le p (front ++ s) back
  omega

/-- A text has at least one occurrence in front. -/
theorem lt_occurrences_append {s : List Char} (h : p ≠ []) :
    occurrences p s < occurrences p (p ++ s) := by
  obtain ⟨a, w, rfl⟩ := List.exists_cons_of_ne_nil h
  have hwhole : occurrences (a :: w) (a :: (w ++ s)) = occurrences (a :: w) (w ++ s) + 1 :=
    occurrences_cons_of (List.prefix_append (a :: w) s)
  have hrest := occurrences_append_le (a :: w) w s
  rw [List.cons_append, hwhole]
  omega

/-! ### Texts that do not overlap with themselves -/

theorem occurrences_append_of_not_mem {u : List Char} (h : a ∉ u) (s : List Char) :
    occurrences (a :: w) (u ++ s) = occurrences (a :: w) s := by
  induction u with
  | nil => rfl
  | cons c u ih =>
    rw [List.mem_cons, not_or] at h
    rw [List.cons_append, occurrences_cons_of_not, ih h.2]
    exact fun hp => h.1 (List.cons_prefix_cons.mp hp).1

theorem countAux_skip (p u s : List Char) : countAux p u.length (u ++ s) = countAux p 0 s := by
  induction u with
  | nil => rfl
  | cons c u ih => exact ih

/-- **Counting from the left** finds every occurrence of a text that cannot overlap with itself. -/
theorem count_eq_occurrences (h : a ∉ w) (s : List Char) :
    count (a :: w) s = occurrences (a :: w) s := by
  rw [count]
  induction hn : s.length using Nat.strong_induction_on generalizing s with
  | _ n ih =>
  cases s with
  | nil => rfl
  | cons c s =>
    by_cases hp : a :: w <+: c :: s
    · -- the occurrence is passed over, and none begins within it
      obtain ⟨rfl, t, rfl⟩ := List.cons_prefix_cons.mp hp
      have hlength : t.length < n := by
        rw [List.length_cons, List.length_append] at hn
        omega
      rw [countAux, if_pos (startsWith_iff.mpr hp), occurrences_cons_of hp, List.length_cons,
        Nat.add_sub_cancel, countAux_skip, occurrences_append_of_not_mem h, ih _ hlength t rfl]
    · have hs : ¬ startsWith (a :: w) (c :: s) = true := fun hs => hp (startsWith_iff.mp hs)
      have hlength : s.length < n := by
        rw [List.length_cons] at hn
        omega
      rw [countAux, if_neg hs, occurrences_cons_of_not hp, ih _ hlength s rfl]

/-! ### Blanks around a text -/

theorem occurrences_eq_zero_of_not_mem {s : List Char} (h : a ∉ s) :
    occurrences (a :: w) s = 0 := by
  have hall := occurrences_append_of_not_mem (w := w) h []
  rwa [List.append_nil] at hall

theorem occurrences_append_of_forall {t : List Char} (h : ∀ c ∈ t, c ∉ a :: w) (s : List Char) :
    occurrences (a :: w) (s ++ t) = occurrences (a :: w) s := by
  induction s with
  | nil =>
    exact occurrences_eq_zero_of_not_mem fun ha => h a ha List.mem_cons_self
  | cons c s ih =>
    -- an occurrence that reached into the rest would share a character with it
    have hbegins : a :: w <+: c :: (s ++ t) ↔ a :: w <+: c :: s := by
      refine ⟨fun hp => ?_, fun hp => hp.trans (List.prefix_append (c :: s) t)⟩
      rcases List.prefix_or_prefix_of_prefix hp (List.prefix_append (c :: s) t) with hp' | ⟨u, hu⟩
      · exact hp'
      · rw [← hu, ← List.cons_append, List.prefix_append_right_inj] at hp
        cases u with
        | nil => exact ⟨[], by rw [← hu, List.append_nil, List.append_nil]⟩
        | cons d u =>
          refine absurd ?_ (h d (hp.subset List.mem_cons_self))
          rw [← hu]
          exact List.mem_append_right _ List.mem_cons_self
    rw [List.cons_append, occurrences, occurrences, ih]
    simp only [hbegins]

/-- **Blanks around a text** do not matter to what is without blanks. -/
theorem occurrences_trim (h : ∀ c ∈ a :: w, isBlankChar c = false) (s : List Char) :
    occurrences (a :: w) (trim s) = occurrences (a :: w) s := by
  obtain ⟨front, hfront, hleft⟩ := exists_blank_append_trimLeft s
  obtain ⟨back, hback, hright⟩ := exists_trimRight_append_blank (trimLeft s)
  rw [isBlank_iff] at hfront hback
  have hnot {t : List Char} (ht : ∀ c ∈ t, isBlankChar c = true) : ∀ c ∈ t, c ∉ a :: w := by
    intro c hc hmem
    have hblank := ht c hc
    rw [h c hmem] at hblank
    cases hblank
  have hmiss : a ∉ front := fun ha => hnot hfront a ha List.mem_cons_self
  calc occurrences (a :: w) (trim s)
      = occurrences (a :: w) (trimRight (trimLeft s) ++ back) :=
        (occurrences_append_of_forall (hnot hback) _).symm
    _ = occurrences (a :: w) (front ++ trimLeft s) := by
        rw [hright, occurrences_append_of_not_mem hmiss]
    _ = occurrences (a :: w) s := by rw [hleft]

/-! ### Replacing -/

section Replacing

variable {q w : List Char}

/-- No occurrence of `p` begins in the text, whatever follows it: the rest of the text differs from
`p` before either of them ends. -/
def Avoids (p : List Char) : List Char → Prop
  | [] => True
  | c :: w => (¬ p <+: c :: w ∧ ¬ c :: w <+: p) ∧ Avoids p w

instance decidableAvoids (p : List Char) : ∀ w, Decidable (Avoids p w)
  | [] => inferInstanceAs (Decidable True)
  | _ :: w => @instDecidableAnd _ _ _ (decidableAvoids p w)

theorem avoids_of_not_mem {a : Char} (h : a ∉ w) : Avoids (a :: p) w := by
  induction w with
  | nil => trivial
  | cons c w ih =>
    rw [List.mem_cons, not_or] at h
    refine ⟨⟨fun hp => h.1 ?_, fun hp => h.1 ?_⟩, ih h.2⟩
    · exact (List.cons_prefix_cons.mp hp).1
    · exact (List.cons_prefix_cons.mp hp).1.symm

theorem Avoids.startsWith_eq {c : Char} (h : Avoids p (c :: w)) (t : List Char) :
    startsWith p (c :: (w ++ t)) = false := by
  rw [Bool.eq_false_iff, Ne, startsWith_iff]
  intro hp
  exact (List.prefix_or_prefix_of_prefix hp (List.prefix_append (c :: w) t)).elim h.1.1 h.1.2

theorem replaceAux_append_of_avoids (h : Avoids p w) (s : List Char) :
    replaceAux p q 0 (w ++ s) = w ++ replaceAux p q 0 s := by
  induction w with
  | nil => rfl
  | cons c w ih => rw [List.cons_append, replaceAux, h.startsWith_eq s, ih h.2]; rfl

theorem replaceAux_skip (w s : List Char) :
    replaceAux p q w.length (w ++ s) = replaceAux p q 0 s := by
  induction w with
  | nil => rfl
  | cons c w ih => exact ih

theorem replaceAux_append (hp : p ≠ []) (s : List Char) :
    replaceAux p q 0 (p ++ s) = q ++ replaceAux p q 0 s := by
  obtain ⟨a, p', rfl⟩ := List.exists_cons_of_ne_nil hp
  have hstart : startsWith (a :: p') (a :: (p' ++ s)) = true :=
    startsWith_iff.mpr (List.prefix_append (a :: p') s)
  rw [List.cons_append, replaceAux, if_pos hstart]
  congr 1
  exact replaceAux_skip p' s

/-- **Tokens are replaced one by one.**  Every token is the text to be replaced, or is written the
same way before and after. -/
theorem replace_flatMap {ι : Type} (hp : p ≠ []) {f g : ι → List Char}
    (h : ∀ i, (f i = p ∧ g i = q) ∨ (f i = g i ∧ Avoids p (f i))) (is : List ι) :
    replace p q (is.flatMap f) = is.flatMap g := by
  rw [replace]
  induction is with
  | nil => rfl
  | cons i is ih =>
    rw [List.flatMap_cons, List.flatMap_cons]
    obtain ⟨hf, hg⟩ | ⟨hfg, ha⟩ := h i
    · rw [hf, hg, replaceAux_append hp, ih]
    · rw [replaceAux_append_of_avoids ha, ih, hfg]

end Replacing

end Interdoc.Text

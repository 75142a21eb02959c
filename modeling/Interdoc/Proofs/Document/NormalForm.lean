import Interdoc.Document.Normalize
import Interdoc.Document.PlainText

/-!
# Sequences of inlines in normal form

`Inline.cons` puts one inline in front of a sequence and keeps it normal, so that
`Inline.normalizeList` is a fold of `Inline.cons` over the sequence.  Everything about the pass
follows from what `cons` does with a text:

* `cons_text_cons_text`: two texts in front of a sequence count as one;
* `normalizeList_append_congr`: what stands in front of a sequence reads only its normal form;
* `plainTextList_cons`: the text of the whole is not touched.

`Inline.IsNormalList` says what the normal form is, and `normalizeList_eq_self` that the pass
leaves it alone.  The plain text of a block does not change either (`Block.plainText_normalize`).
-/

namespace Interdoc

namespace Inline

/-! ### The step of the pass -/

@[simp]
theorem cons_empty (rest : List Inline) : cons (.text "") rest = rest := by
  simp [cons]

/-- Whether an inline is literal text. -/
def isText : Inline → Bool
  | .text _ => true
  | _ => false

theorem isText_eq_false_or (i : Inline) : i.isText = false ∨ ∃ s, i = .text s := by
  cases i with
  | text s => exact .inr ⟨s, rfl⟩
  | _ => exact .inl rfl

theorem cons_of_not_isText {i : Inline} (h : i.isText = false) (rest : List Inline) :
    cons i rest = i :: rest := by
  cases i with
  | text s => exact absurd h (by simp [isText])
  | _ => rfl

theorem cons_text_of_ne {s : String} (hs : s ≠ "") {rest : List Inline}
    (h : ∀ j ∈ rest.head?, j.isText = false) : cons (.text s) rest = .text s :: rest := by
  cases rest with
  | nil => simp [cons, hs]
  | cons j rest =>
    have hj := h j (by simp)
    cases j with
    | text t => exact absurd hj (by simp [isText])
    | _ => simp [cons, hs]

theorem cons_text_text {s : String} (hs : s ≠ "") (t : String) (rest : List Inline) :
    cons (.text s) (.text t :: rest) = .text (s ++ t) :: rest := by
  simp [cons, hs]

/-- What the step asks of a sequence: whether a text stands in front of it. -/
theorem head?_isText_or (rest : List Inline) :
    (∀ j ∈ rest.head?, j.isText = false) ∨ ∃ t tail, rest = .text t :: tail := by
  cases rest with
  | nil => exact .inl (by simp)
  | cons j tail =>
    rcases j.isText_eq_false_or with hj | ⟨t, rfl⟩
    · exact .inl (by simpa using hj)
    · exact .inr ⟨t, tail, rfl⟩

/-- **Two texts in front of a sequence count as one.** -/
theorem cons_text_cons_text (s t : String) (rest : List Inline) :
    cons (.text s) (cons (.text t) rest) = cons (.text (s ++ t)) rest := by
  by_cases hs : s = ""
  · rw [hs, cons_empty, String.empty_append]
  by_cases ht : t = ""
  · rw [ht, cons_empty, String.append_empty]
  have hst : s ++ t ≠ "" := by
    intro h
    exact hs (String.append_eq_empty_iff.mp h).1
  rcases head?_isText_or rest with h | ⟨u, tail, rfl⟩
  · rw [cons_text_of_ne ht h, cons_text_text hs, cons_text_of_ne hst h]
  · rw [cons_text_text ht, cons_text_text hs, cons_text_text hst, String.append_assoc]

/-! ### Sequences -/

theorem normalizeList_cons (i : Inline) (rest : List Inline) :
    normalizeList (i :: rest) = cons (normalize i) (normalizeList rest) := by
  rw [normalizeList]

/-- What stands in front of a sequence reads only its normal form. -/
theorem normalizeList_append_congr (xs : List Inline) {ys zs : List Inline}
    (h : normalizeList ys = normalizeList zs) :
    normalizeList (xs ++ ys) = normalizeList (xs ++ zs) := by
  induction xs with
  | nil => exact h
  | cons x xs ih =>
    rw [List.cons_append, List.cons_append, normalizeList_cons, normalizeList_cons, ih]

/-! ### Plain text -/

theorem plainTextList_cons (i : Inline) (rest : List Inline) :
    plainTextList (cons i rest) = plainText i ++ plainTextList rest := by
  cases i with
  | text s =>
    by_cases hs : s = ""
    · rw [hs, cons_empty, plainText, String.empty_append]
    rcases head?_isText_or rest with h | ⟨t, tail, rfl⟩
    · rw [cons_text_of_ne hs h, plainTextList]
    · rw [cons_text_text hs, plainTextList, plainTextList, plainText, plainText, plainText,
        String.append_assoc]
  | _ => rw [cons_of_not_isText rfl, plainTextList]

mutual

theorem plainText_normalize : ∀ i : Inline, plainText (normalize i) = plainText i
  | .strong xs => by rw [normalize, plainText, plainText, plainTextList_normalizeList xs]
  | .emphasis xs => by rw [normalize, plainText, plainText, plainTextList_normalizeList xs]
  | .underline xs => by rw [normalize, plainText, plainText, plainTextList_normalizeList xs]
  | .link href xs => by rw [normalize, plainText, plainText, plainTextList_normalizeList xs]
  | .text _ | .code _ | .lineBreak | .image _ _ => by rw [normalize]

/-- **Normalizing keeps the text** of a sequence. -/
theorem plainTextList_normalizeList :
    ∀ xs : List Inline, plainTextList (normalizeList xs) = plainTextList xs
  | [] => rfl
  | i :: rest => by
    rw [normalizeList_cons, plainTextList_cons, plainText_normalize i,
      plainTextList_normalizeList rest, plainTextList]

end

/-! ### The normal form -/

mutual

/-- An inline in normal form. -/
def IsNormal : Inline → Prop
  | .strong inlines => IsNormalList inlines
  | .emphasis inlines => IsNormalList inlines
  | .underline inlines => IsNormalList inlines
  | .link _ inlines => IsNormalList inlines
  | .text s => s ≠ ""
  | .code _ | .lineBreak | .image _ _ => True

/-- A sequence of inlines in normal form: no text is empty, and no two are neighbours. -/
def IsNormalList : List Inline → Prop
  | [] => True
  | i :: rest =>
    IsNormal i ∧ (i.isText = true → ∀ j ∈ rest.head?, j.isText = false) ∧ IsNormalList rest

end

/-- The step keeps the normal form. -/
theorem isNormalList_cons {i : Inline} (hi : i = .text "" ∨ IsNormal i) {rest : List Inline}
    (h : IsNormalList rest) : IsNormalList (cons i rest) := by
  rcases hi with rfl | hi
  · rwa [cons_empty]
  rcases i.isText_eq_false_or with hit | ⟨s, rfl⟩
  · rw [cons_of_not_isText hit, IsNormalList]
    exact ⟨hi, by simp [hit], h⟩
  rw [IsNormal] at hi
  rcases head?_isText_or rest with hrest | ⟨t, tail, rfl⟩
  · rw [cons_text_of_ne hi hrest, IsNormalList, IsNormal]
    exact ⟨hi, fun _ => hrest, h⟩
  · -- behind the text that was there stands no other, so none stands behind the joint one
    rw [IsNormalList] at h
    rw [cons_text_text hi, IsNormalList, IsNormal]
    refine ⟨fun he => hi (String.append_eq_empty_iff.mp he).1, ?_, h.2.2⟩
    intro _
    exact h.2.1 rfl

mutual

theorem normalize_isNormal : ∀ i : Inline, normalize i = .text "" ∨ IsNormal (normalize i)
  | .strong xs => by rw [normalize, IsNormal]; exact .inr (normalizeList_isNormal xs)
  | .emphasis xs => by rw [normalize, IsNormal]; exact .inr (normalizeList_isNormal xs)
  | .underline xs => by rw [normalize, IsNormal]; exact .inr (normalizeList_isNormal xs)
  | .link href xs => by rw [normalize, IsNormal]; exact .inr (normalizeList_isNormal xs)
  | .text s => by
    by_cases hs : s = ""
    · exact .inl (by rw [normalize, hs])
    · exact .inr (by rw [normalize, IsNormal]; exact hs)
  | .code _ | .lineBreak | .image _ _ => .inr (by simp [normalize, IsNormal])

/-- **The pass gives the normal form.** -/
theorem normalizeList_isNormal : ∀ xs : List Inline, IsNormalList (normalizeList xs)
  | [] => by simp [normalizeList, IsNormalList]
  | i :: rest => by
    rw [normalizeList_cons]
    exact isNormalList_cons (normalize_isNormal i) (normalizeList_isNormal rest)

end

theorem cons_eq_of_isNormalList {i : Inline} {rest : List Inline}
    (h : IsNormalList (i :: rest)) : cons i rest = i :: rest := by
  rw [IsNormalList] at h
  cases i with
  | text s => exact cons_text_of_ne (by simpa [IsNormal] using h.1) (h.2.1 rfl)
  | _ => exact cons_of_not_isText rfl rest

mutual

theorem normalize_eq_self : ∀ {i : Inline}, IsNormal i → normalize i = i
  | .strong xs, h => by rw [normalize, normalizeList_eq_self (by rwa [IsNormal] at h)]
  | .emphasis xs, h => by rw [normalize, normalizeList_eq_self (by rwa [IsNormal] at h)]
  | .underline xs, h => by rw [normalize, normalizeList_eq_self (by rwa [IsNormal] at h)]
  | .link href xs, h => by rw [normalize, normalizeList_eq_self (by rwa [IsNormal] at h)]
  | .text _, _ | .code _, _ | .lineBreak, _ | .image _ _, _ => by rw [normalize]

/-- **The pass leaves the normal form alone.** -/
theorem normalizeList_eq_self : ∀ {xs : List Inline}, IsNormalList xs → normalizeList xs = xs
  | [], _ => by rw [normalizeList]
  | i :: rest, h => by
    rw [IsNormalList] at h
    rw [normalizeList_cons, normalize_eq_self h.1, normalizeList_eq_self h.2.2]
    exact cons_eq_of_isNormalList (by rwa [IsNormalList])

end

theorem isNormalList_iff (xs : List Inline) : IsNormalList xs ↔ normalizeList xs = xs := by
  constructor
  · exact normalizeList_eq_self
  · intro h
    rw [← h]
    exact normalizeList_isNormal xs

theorem isNormalList_append {xs ys : List Inline} (h : IsNormalList (xs ++ ys)) :
    IsNormalList xs ∧ IsNormalList ys := by
  induction xs with
  | nil => exact ⟨by simp [IsNormalList], h⟩
  | cons x xs ih =>
    rw [List.cons_append, IsNormalList] at h
    obtain ⟨hx, hy⟩ := ih h.2.2
    refine ⟨?_, hy⟩
    rw [IsNormalList]
    -- what comes first in `xs` comes first in the whole
    refine ⟨h.1, fun ht j hj => h.2.1 ht j ?_, hx⟩
    rw [List.head?_append]
    simp only [Option.mem_def] at hj ⊢
    rw [hj]
    rfl

/-- A trailing text may be any other one that is not empty. -/
theorem isNormalList_concat_text {xs : List Inline} {s : String}
    (h : IsNormalList (xs ++ [.text s])) {t : String} (ht : t ≠ "") :
    IsNormalList (xs ++ [.text t]) := by
  induction xs with
  | nil =>
    rw [List.nil_append, IsNormalList, IsNormal, IsNormalList]
    exact ⟨ht, by simp, trivial⟩
  | cons x xs ih =>
    rw [List.cons_append, IsNormalList] at h ⊢
    refine ⟨h.1, fun hx j hj => ?_, ih h.2.2⟩
    -- only the inline right before the last looks at it, and it is no text
    cases xs with
    | nil => exact absurd (h.2.1 hx (.text s) rfl) (by simp [isText])
    | cons y ys => exact h.2.1 hx j hj

/-- In normal form no text follows a text. -/
theorem isText_of_isNormalList_append {xs : List Inline} {x y : Inline}
    (h : IsNormalList (xs ++ [x, y])) (hy : y.isText = true) : x.isText = false := by
  have hxy := (isNormalList_append h).2
  rw [IsNormalList] at hxy
  cases hx : x.isText with
  | false => rfl
  | true => exact absurd (hxy.2.1 hx y (by simp)) (by simp [hy])

end Inline

namespace Block

/-! ### Plain text of blocks -/

mutual

/-- **Normalizing keeps the text** of a block. -/
theorem plainText_normalize : ∀ b : Block, plainText (normalize b) = plainText b
  | .paragraph xs => by
    rw [normalize, plainText, plainText, Inline.plainTextList_normalizeList]
  | .heading level xs => by
    rw [normalize, plainText, plainText, Inline.plainTextList_normalizeList]
  | .list ordered items => by
    rw [normalize, plainText, plainText, plainTextsOfItems_normalizeItems items]
  | .quote blocks => by rw [normalize, plainText, plainText, plainTexts_normalizeList blocks]
  | .code _ _ | .rule => by rw [normalize]
  | .table none rows alignments => by
    rw [normalize, plainText, plainText, plainTextsOfRows_normalizeRows rows]
  | .table (some header) rows alignments => by
    rw [normalize, plainText, plainText, plainTextsOfRows_normalizeRows rows,
      plainTextsOfItems_normalizeItems header]

theorem plainTexts_normalizeList :
    ∀ blocks : List Block, plainTexts (normalizeList blocks) = plainTexts blocks
  | [] => rfl
  | b :: rest => by
    rw [normalizeList, plainTexts, plainTexts, plainText_normalize b,
      plainTexts_normalizeList rest]

/-- An empty container has the text of the one that holds an empty paragraph. -/
theorem plainTextsOfItems_normalizeItems :
    ∀ items : List (List Block), plainTextsOfItems (normalizeItems items) = plainTextsOfItems items
  | [] => rfl
  | [] :: rest => by
    rw [normalizeItems, plainTextsOfItems, plainTextsOfItems,
      plainTextsOfItems_normalizeItems rest]
    rfl
  | (b :: blocks) :: rest => by
    rw [normalizeItems, plainTextsOfItems, plainTextsOfItems,
      plainTextsOfItems_normalizeItems rest, plainTexts, plainTexts, plainText_normalize b,
      plainTexts_normalizeList blocks]

theorem plainTextsOfRows_normalizeRows :
    ∀ rows : List (List (List Block)),
      plainTextsOfRows (normalizeRows rows) = plainTextsOfRows rows
  | [] => rfl
  | cells :: rest => by
    rw [normalizeRows, plainTextsOfRows, plainTextsOfRows, plainTextsOfRows_normalizeRows rest,
      plainTextsOfItems_normalizeItems cells]

end

/-! ### Sequences of blocks -/

theorem normalizeList_append (bs cs : List Block) :
    normalizeList (bs ++ cs) = normalizeList bs ++ normalizeList cs := by
  induction bs with
  | nil => rfl
  | cons b bs ih => rw [List.cons_append, normalizeList, normalizeList, ih, List.cons_append]

/-- A container has the normal form of its content, or holds an empty paragraph. -/
theorem normalizeItems_cons (bs : List Block) (rest : List (List Block)) :
    normalizeItems (bs :: rest)
      = (if normalizeList bs = [] then [emptyParagraph] else normalizeList bs)
        :: normalizeItems rest := by
  cases bs with
  | nil => rw [normalizeItems, normalizeList, if_pos rfl]
  | cons b bs => rw [normalizeItems, normalizeList, if_neg (List.cons_ne_nil _ _)]

end Block

end Interdoc

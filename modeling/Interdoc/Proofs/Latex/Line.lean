import Interdoc.Proofs.Latex.InlineRoundTrip

/-!
# Inlines alone on a line

The inlines of a paragraph, a heading or a table cell are printed on one line, and the blanks at
the ends of the line are lost when it is read again.  `Inline.tidy` is what comes back
(`normalizeList_tokenize_trim`): the normal form, with line endings as spaces, without the blanks
at the start of a leading text and at the end of a trailing one.

The proof looks at the first and at the last inline.  A text prints blanks only for its own
(`isBlank_escapeChar`), and what is no text prints a backslash first, so that trimming the line is
trimming its outer texts; only the space behind a printed line break is taken without being missed.

`tidy_eq_self` says which sequences come back as they are, and `startsBlock_printInlines` that no
line of inlines is taken for the beginning of another block.
-/

namespace Interdoc

namespace Inline

/-! ### Texts at the ends -/

/-- What is asked of an inline only if it is a text. -/
instance (o : Option Inline) (p : String → Prop) [DecidablePred p] :
    Decidable (∀ s, o = some (.text s) → p s) :=
  match o with
  | some (.text s) => decidable_of_iff (p s)
    ⟨fun h t ht => by rwa [← Inline.text.inj (Option.some.inj ht)], fun h => h s rfl⟩
  | none | some (.strong _) | some (.emphasis _) | some (.underline _) | some (.code _)
  | some .lineBreak | some (.link _ _) | some (.image _ _) => isTrue (by simp)

/-- A sequence does not begin with a text that begins with a blank. -/
def SolidStart (xs : List Inline) : Prop :=
  ∀ s, xs.head? = some (.text s) → Text.SolidHead s.toList

/-- A sequence does not end with a text that ends with a blank. -/
def SolidEnd (xs : List Inline) : Prop :=
  ∀ s, xs.getLast? = some (.text s) → Text.SolidLast s.toList

instance (xs : List Inline) : Decidable (SolidStart xs) :=
  inferInstanceAs (Decidable (∀ s, xs.head? = some (.text s) → Text.SolidHead s.toList))

instance (xs : List Inline) : Decidable (SolidEnd xs) :=
  inferInstanceAs (Decidable (∀ s, xs.getLast? = some (.text s) → Text.SolidLast s.toList))

/-- A sequence without the blanks at the start of a leading text. -/
def trimStart : List Inline → List Inline
  | .text s :: rest => cons (.text (String.ofList (Text.trimLeft s.toList))) rest
  | xs => xs

/-- A sequence without the blanks at the end of a trailing text. -/
def trimEnd : List Inline → List Inline
  | [] => []
  | [.text s] => cons (.text (String.ofList (Text.trimRight s.toList))) []
  | i :: rest => i :: trimEnd rest

/-- What is left of inlines that were printed alone on a line. -/
def tidy (xs : List Inline) : List Inline :=
  trimEnd (trimStart (normalizeList (spaceEndsList xs)))

theorem trimStart_of_not_isText {i : Inline} (h : i.isText = false) (rest : List Inline) :
    trimStart (i :: rest) = i :: rest := by
  cases i with
  | text s => exact absurd h (by simp [isText])
  | _ => rfl

theorem trimEnd_append (xs : List Inline) {ys : List Inline} (h : ys ≠ []) :
    trimEnd (xs ++ ys) = xs ++ trimEnd ys := by
  induction xs with
  | nil => rfl
  | cons x xs ih =>
    rw [List.cons_append, trimEnd, ih, List.cons_append]
    intro s _ hn
    exact h (List.append_eq_nil_iff.mp hn).2

theorem trimEnd_concat_of_not_isText {i : Inline} (h : i.isText = false) (xs : List Inline) :
    trimEnd (xs ++ [i]) = xs ++ [i] := by
  rw [trimEnd_append xs (List.cons_ne_nil _ _)]
  cases i with
  | text s => exact absurd h (by simp [isText])
  | _ => rfl

theorem trimEnd_concat_text (xs : List Inline) (s : String) :
    trimEnd (xs ++ [.text s]) = xs ++ cons (.text (String.ofList (Text.trimRight s.toList))) [] :=
  trimEnd_append xs (List.cons_ne_nil _ _)

/-- In normal form no text follows a leading text. -/
theorem head?_isText_of_isNormalList {s : String} {rest : List Inline}
    (h : IsNormalList (.text s :: rest)) : ∀ j ∈ rest.head?, j.isText = false := by
  rw [IsNormalList] at h
  exact h.2.1 rfl

/-- In normal form no text precedes a trailing text. -/
theorem getLast?_isText_of_isNormalList {s : String} {xs : List Inline}
    (h : IsNormalList (xs ++ [.text s])) : ∀ j ∈ xs.getLast?, j.isText = false := by
  intro j hj
  obtain ⟨ys, rfl⟩ := List.getLast?_eq_some_iff.mp hj
  rw [List.append_assoc] at h
  exact isText_of_isNormalList_append h rfl

/-! ### Sequences on a line -/

/-- A sequence as it can stand on a line: in normal form and without line endings. -/
structure Lined (xs : List Inline) : Prop where
  normal : IsNormalList xs
  oneLine : OneLineList xs

theorem lined_normalizeList (xs : List Inline) : Lined (normalizeList (spaceEndsList xs)) where
  normal := normalizeList_isNormal _
  oneLine := oneLineList_normalizeList (oneLineList_spaceEndsList xs)

theorem Lined.left {xs ys : List Inline} (h : Lined (xs ++ ys)) : Lined xs where
  normal := (isNormalList_append h.normal).1
  oneLine := by
    have ho := h.oneLine
    rw [oneLineList_iff] at ho ⊢
    intro i hi
    exact ho i (List.mem_append_left _ hi)

/-- The pass leaves a sequence on a line alone. -/
theorem Lined.normalizeList_spaceEndsList {xs : List Inline} (h : Lined xs) :
    normalizeList (spaceEndsList xs) = xs := by
  rw [spaceEndsList_eq_self h.oneLine, normalizeList_eq_self h.normal]

theorem lined_cons_text {s : String} {t : List Char} (ht : t ⊆ s.toList) {rest : List Inline}
    (hs : OneLine (.text s)) (h : Lined rest) : Lined (cons (.text (String.ofList t)) rest) where
  normal := by
    apply isNormalList_cons _ h.normal
    by_cases he : String.ofList t = ""
    · exact .inl (by rw [he])
    · exact .inr (by rw [IsNormal]; exact he)
  oneLine := by
    apply oneLineList_cons _ h.oneLine
    rw [OneLine] at hs ⊢
    exact hs.of_subset ht

theorem Lined.trimStart {xs : List Inline} (h : Lined xs) : Lined (trimStart xs) := by
  cases xs with
  | nil => exact h
  | cons i rest =>
    rcases i.isText_eq_false_or with hi | ⟨s, rfl⟩
    · rwa [trimStart_of_not_isText hi]
    · have hn := h.normal
      have ho := h.oneLine
      rw [IsNormalList] at hn
      rw [OneLineList] at ho
      exact lined_cons_text (List.dropWhile_sublist _).subset ho.1 ⟨hn.2.2, ho.2⟩

theorem oneLineList_trimEnd {xs : List Inline} (h : OneLineList xs) : OneLineList (trimEnd xs) := by
  fun_induction trimEnd xs with
  | case1 => exact h
  | case2 s =>
    rw [OneLineList, OneLine] at h
    apply oneLineList_cons _ h.2
    rw [OneLine]
    exact h.1.of_subset (Text.trimRight_isPrefix _).subset
  | case3 i rest _ ih =>
    rw [OneLineList] at h ⊢
    exact ⟨h.1, ih h.2⟩

theorem Lined.trimEnd {xs : List Inline} (h : Lined xs) : Lined (trimEnd xs) where
  oneLine := oneLineList_trimEnd h.oneLine
  normal := by
    rcases List.eq_nil_or_concat' xs with rfl | ⟨ys, i, rfl⟩
    · exact h.normal
    rcases i.isText_eq_false_or with hi | ⟨s, rfl⟩
    · rw [trimEnd_concat_of_not_isText hi]
      exact h.normal
    · rw [trimEnd_concat_text]
      by_cases hs : String.ofList (Text.trimRight s.toList) = ""
      · rw [hs, cons_empty, List.append_nil]
        exact h.left.normal
      · rw [cons_text_of_ne hs (by simp)]
        exact isNormalList_concat_text h.normal hs

theorem lined_tidy (xs : List Inline) : Lined (tidy xs) :=
  (lined_normalizeList xs).trimStart.trimEnd

end Inline

namespace Latex

open Inline

/-! ### Printing the normal form -/

theorem escape_append (s t : List Char) : escape (s ++ t) = escape s ++ escape t :=
  List.flatMap_append

theorem escapeChar_spaceEnd (c : Char) : escapeChar (Text.spaceEnd c) = escapeChar c := by
  by_cases hn : c = '\n'
  · rw [hn]; rfl
  by_cases hr : c = '\r'
  · rw [hr]; rfl
  rw [Text.spaceEnd_of_ne hn hr]

theorem escape_spaceEnds (s : String) : escape (Text.spaceEnds s).toList = escape s.toList := by
  rw [Text.spaceEnds, String.toList_ofList, escape, escape, List.flatMap_map]
  exact List.flatMap_congr fun c _ => escapeChar_spaceEnd c

mutual

theorem printInline_spaceEnds : ∀ i : Inline, printInline i.spaceEnds = printInline i
  | .text s => by rw [spaceEnds, printInline_text, printInline_text, escape_spaceEnds]
  | .strong xs => by
    rw [spaceEnds, printInline_strong, printInline_strong, printInlines_spaceEndsList xs]
  | .emphasis xs => by
    rw [spaceEnds, printInline_emphasis, printInline_emphasis, printInlines_spaceEndsList xs]
  | .underline xs => by
    rw [spaceEnds, printInline_underline, printInline_underline, printInlines_spaceEndsList xs]
  | .code s => by rw [spaceEnds, printInline_code, printInline_code, escape_spaceEnds]
  | .lineBreak => by rw [spaceEnds]
  | .link href xs => by
    rw [spaceEnds, printInline_link, printInline_link, escape_spaceEnds,
      printInlines_spaceEndsList xs]
  | .image src none => by
    rw [spaceEnds, Option.map_none, printInline_image, printInline_image, escape_spaceEnds]
  | .image src (some alt) => by
    rw [spaceEnds, Option.map_some, printInline_image_alt, printInline_image_alt,
      escape_spaceEnds, escape_spaceEnds]

/-- Line endings are printed as spaces. -/
theorem printInlines_spaceEndsList :
    ∀ xs : List Inline, printInlines (spaceEndsList xs) = printInlines xs
  | [] => rfl
  | i :: rest => by
    rw [spaceEndsList, printInlines_cons, printInlines_cons, printInline_spaceEnds i,
      printInlines_spaceEndsList rest]

end

theorem printInlines_cons_text (s : String) (rest : List Inline) :
    printInlines (cons (.text s) rest) = escape s.toList ++ printInlines rest := by
  unfold cons
  dsimp only
  split
  · next hs => rw [hs]; rfl
  · split
    · next t rest =>
      rw [printInlines_cons, printInlines_cons, printInline_text, printInline_text,
        String.toList_append, escape_append, List.append_assoc]
    · rw [printInlines_cons, printInline_text]

mutual

theorem printInline_normalize : ∀ i : Inline, printInline (Inline.normalize i) = printInline i
  | .strong xs => by
    rw [Inline.normalize, printInline_strong, printInline_strong, printInlines_normalizeList xs]
  | .emphasis xs => by
    rw [Inline.normalize, printInline_emphasis, printInline_emphasis, printInlines_normalizeList xs]
  | .underline xs => by
    rw [Inline.normalize, printInline_underline, printInline_underline,
      printInlines_normalizeList xs]
  | .link href xs => by
    rw [Inline.normalize, printInline_link, printInline_link, printInlines_normalizeList xs]
  | .text _ | .code _ | .lineBreak | .image _ _ => by rw [Inline.normalize]

/-- The normal form prints the same. -/
theorem printInlines_normalizeList :
    ∀ xs : List Inline, printInlines (normalizeList xs) = printInlines xs
  | [] => rfl
  | i :: rest => by
    rw [normalizeList_cons, printInlines_cons, ← printInline_normalize i,
      ← printInlines_normalizeList rest]
    rcases (Inline.normalize i).isText_eq_false_or with hi | ⟨s, hs⟩
    · rw [cons_of_not_isText hi, printInlines_cons]
    · rw [hs, printInlines_cons_text, printInline_text]

end

/-! ### Blanks at the ends of a line -/

theorem isBlank_escapeChar (c : Char) : Text.isBlank (escapeChar c) = Text.isBlankChar c := by
  unfold escapeChar
  split <;> first | rfl | exact Bool.and_true _

theorem isBlank_escape {s : List Char} (h : Text.isBlank s = true) :
    Text.isBlank (escape s) = true := by
  rw [Text.isBlank_iff] at h ⊢
  intro c hc
  obtain ⟨d, hd, hc⟩ := List.mem_flatMap.mp hc
  have hb := isBlank_escapeChar d
  rw [h d hd, Text.isBlank_iff] at hb
  exact hb c hc

theorem solid_escapeChar {c : Char} (h : Text.isBlankChar c = false) :
    escapeChar c ≠ [] ∧ Text.SolidHead (escapeChar c) ∧ Text.SolidLast (escapeChar c) := by
  unfold escapeChar
  split
  case h_11 | h_12 => exact absurd h (by decide)
  case h_13 => exact ⟨List.cons_ne_nil _ _, Text.solidHead_cons.mpr h,
    Text.solidLast_concat (s := []).mpr h⟩
  all_goals decide

theorem solidHead_escape {s : List Char} (hs : s ≠ []) (h : Text.SolidHead s) :
    escape s ≠ [] ∧ Text.SolidHead (escape s) := by
  obtain ⟨c, s, rfl⟩ := List.exists_cons_of_ne_nil hs
  obtain ⟨hne, hc, -⟩ := solid_escapeChar (Text.solidHead_cons.mp h)
  rw [escape, List.flatMap_cons, Text.solidHead_append hne]
  exact ⟨List.append_ne_nil_of_left_ne_nil hne _, hc⟩

theorem solidLast_escape {s : List Char} (hs : s ≠ []) (h : Text.SolidLast s) :
    escape s ≠ [] ∧ Text.SolidLast (escape s) := by
  obtain ⟨t, c, rfl⟩ := (List.eq_nil_or_concat' s).resolve_left hs
  obtain ⟨hne, -, hc⟩ := solid_escapeChar (Text.solidLast_concat.mp h)
  have he : escape [c] = escapeChar c := List.append_nil _
  rw [escape_append, he, Text.solidLast_append hne]
  exact ⟨List.append_ne_nil_of_right_ne_nil _ hne, hc⟩

/-- What is no text begins with a backslash. -/
theorem exists_printInline {i : Inline} (h : i.isText = false) :
    ∃ s, printInline i = '\\' :: s := by
  cases i with
  | text s => exact absurd h (by simp [isText])
  | image src alt => cases alt <;> exact ⟨_, rfl⟩
  | _ => exact ⟨_, rfl⟩

/-- What is no text and no line break ends with a brace. -/
theorem exists_printInline_concat {i : Inline} (h : i.isText = false) (hb : i ≠ .lineBreak) :
    ∃ s, printInline i = s ++ ['\x7d'] := by
  have hcommand (name : String) (a : List Char) : ∃ s, command name [a] = s ++ ['\x7d'] :=
    ⟨'\\' :: name.toList ++ '\x7b' :: a, by simp [command]⟩
  -- the last argument stands in braces, whatever the command is
  cases i with
  | text s => exact absurd h (by simp [isText])
  | lineBreak => exact absurd rfl hb
  | link href xs =>
    rw [printInline_link]
    exact ⟨'\\' :: "href".toList ++ '\x7b' :: escape href.toList ++ '\x7d' :: '\x7b' ::
      printInlines xs, by simp [command]⟩
  | image src alt =>
    cases alt with
    | none => exact hcommand _ _
    | some alt => exact ⟨_, rfl⟩
  | _ => exact hcommand _ _

theorem trimLeft_printInlines_of_not_isText {xs : List Inline}
    (h : ∀ j ∈ xs.head?, j.isText = false) :
    Text.trimLeft (printInlines xs) = printInlines xs := by
  apply Text.trimLeft_eq_self
  cases xs with
  | nil => simp [printInlines, Text.SolidHead]
  | cons j xs =>
    obtain ⟨s, hs⟩ := exists_printInline (h j rfl)
    rw [printInlines_cons, hs, List.cons_append, Text.solidHead_cons]
    decide

/-- **Trimming a printed line at the left** is trimming its leading text. -/
theorem trimLeft_printInlines {xs : List Inline} (h : IsNormalList xs) :
    Text.trimLeft (printInlines xs) = printInlines (trimStart xs) := by
  cases xs with
  | nil => rfl
  | cons i rest =>
    rcases i.isText_eq_false_or with hi | ⟨s, rfl⟩
    · rw [trimStart_of_not_isText hi]
      exact trimLeft_printInlines_of_not_isText (by simpa using hi)
    · have hrest := head?_isText_of_isNormalList h
      obtain ⟨w, hw, hs⟩ := Text.exists_blank_append_trimLeft s.toList
      have he : escape s.toList = escape w ++ escape (Text.trimLeft s.toList) := by
        rw [← escape_append, hs]
      rw [printInlines_cons, printInline_text, he, List.append_assoc,
        Text.trimLeft_append_of_isBlank (isBlank_escape hw), trimStart,
        printInlines_cons_text, String.toList_ofList]
      by_cases he : Text.trimLeft s.toList = []
      · rw [he]
        exact trimLeft_printInlines_of_not_isText hrest
      · obtain ⟨hne, hh⟩ := solidHead_escape he (Text.solidHead_trimLeft _)
        exact Text.trimLeft_eq_self ((Text.solidHead_append hne).mpr hh)

/-- A line break at the end of a line is read without the space behind it. -/
theorem normalizeList_tokenize_trimRight_lineBreak {xs : List Inline}
    (h : Lined (xs ++ [.lineBreak])) :
    normalizeList (tokenize (Text.trimRight (printInlines (xs ++ [.lineBreak]))))
      = xs ++ [.lineBreak] := by
  have hp : printInlines [.lineBreak] = '\\' :: "newline".toList ++ [' '] := rfl
  have ht : tokenize ('\\' :: "newline".toList) = [.lineBreak] := by
    have hr : Command.read? "newline".toList = some (.lineBreak, []) := rfl
    rw [tokenize_command hr, tokenize_nil]
    rfl
  have hls : Text.SolidLast (printInlines xs ++ '\\' :: "newline".toList) :=
    (Text.solidLast_append (by decide)).mpr (by decide)
  rw [printInlines_append, hp, ← List.append_assoc, Text.trimRight_append_of_isBlank _ (by decide),
    Text.trimRight_eq_self hls, normalizeList_tokenize_print, ht,
    spaceEndsList_eq_self h.left.oneLine, normalizeList_eq_self h.normal]

/-- Without a trailing text nothing goes but the space behind a line break. -/
theorem normalizeList_tokenize_trimRight_of_not_isText {xs : List Inline} (h : Lined xs)
    (hx : ∀ j ∈ xs.getLast?, j.isText = false) :
    normalizeList (tokenize (Text.trimRight (printInlines xs))) = xs := by
  rcases List.eq_nil_or_concat' xs with rfl | ⟨ys, j, rfl⟩
  · rw [printInlines]
    exact congrArg normalizeList tokenize_nil
  by_cases hb : j = .lineBreak
  · rw [hb] at h ⊢
    exact normalizeList_tokenize_trimRight_lineBreak h
  · obtain ⟨s, hs⟩ := exists_printInline_concat (hx j (by simp)) hb
    have hp : printInlines [j] = s ++ ['\x7d'] := by
      rw [← hs]
      exact List.append_nil _
    have hls : Text.SolidLast (printInlines ys ++ printInlines [j]) := by
      rw [hp, ← List.append_assoc, Text.solidLast_concat]
      decide
    rw [printInlines_append, Text.trimRight_eq_self hls, ← printInlines_append,
      normalizeList_tokenize_printInlines, h.normalizeList_spaceEndsList]

/-- **A printed line trimmed at the right** is read as the inlines without the blanks of the
trailing text. -/
theorem normalizeList_tokenize_trimRight {xs : List Inline} (h : Lined xs) :
    normalizeList (tokenize (Text.trimRight (printInlines xs))) = trimEnd xs := by
  rcases List.eq_nil_or_concat' xs with rfl | ⟨ys, i, rfl⟩
  · exact normalizeList_tokenize_trimRight_of_not_isText h (by simp)
  rcases i.isText_eq_false_or with hi | ⟨s, rfl⟩
  · rw [trimEnd_concat_of_not_isText hi]
    exact normalizeList_tokenize_trimRight_of_not_isText h (by simpa using hi)
  have hys := getLast?_isText_of_isNormalList h.normal
  obtain ⟨w, hw, hs⟩ := Text.exists_trimRight_append_blank s.toList
  have hp : printInlines [.text s] = escape (Text.trimRight s.toList) ++ escape w := by
    rw [← escape_append, hs]
    exact List.append_nil _
  rw [printInlines_append, hp, ← List.append_assoc,
    Text.trimRight_append_of_isBlank _ (isBlank_escape hw), trimEnd_concat_text]
  -- the text goes as a whole, and what stands before it is the end of the line, or a part stays
  by_cases he : Text.trimRight s.toList = []
  · rw [he, String.ofList_nil, cons_empty, List.append_nil, escape, List.flatMap_nil,
      List.append_nil]
    exact normalizeList_tokenize_trimRight_of_not_isText h.left hys
  · obtain ⟨hne, hl⟩ := solidLast_escape he (Text.solidLast_trimRight _)
    have hp' : printInlines ys ++ escape (Text.trimRight s.toList)
        = printInlines (ys ++ [.text (String.ofList (Text.trimRight s.toList))]) := by
      rw [printInlines_append, printInlines_cons, printInline_text, String.toList_ofList]
      congr 1
      exact (List.append_nil _).symm
    have hc : cons (.text (String.ofList (Text.trimRight s.toList))) [] = [_] :=
      cons_text_of_ne (mt String.ofList_eq_empty_iff.mp he) (by simp)
    have hl' := h.trimEnd
    rw [trimEnd_concat_text, hc] at hl'
    rw [Text.trimRight_eq_self ((Text.solidLast_append hne).mpr hl), hp',
      normalizeList_tokenize_printInlines, hl'.normalizeList_spaceEndsList, hc]

/-- **Inlines alone on a line** are read back tidied. -/
theorem normalizeList_tokenize_trim (xs : List Inline) :
    normalizeList (tokenize (Text.trim (printInlines xs))) = tidy xs := by
  have hl := lined_normalizeList xs
  rw [← printInlines_spaceEndsList, ← printInlines_normalizeList, Text.trim,
    trimLeft_printInlines hl.normal, normalizeList_tokenize_trimRight hl.trimStart]
  rfl

/-! ### What comes back -/

theorem solidStart_trimStart {xs : List Inline} (h : IsNormalList xs) :
    SolidStart (trimStart xs) := by
  cases xs with
  | nil => exact fun s hs => absurd hs (by simp [trimStart])
  | cons i rest =>
    rcases i.isText_eq_false_or with hi | ⟨s, rfl⟩
    · rw [trimStart_of_not_isText hi]
      intro s hs
      rw [Option.some.inj hs] at hi
      exact absurd hi (by simp [isText])
    · have hrest := head?_isText_of_isNormalList h
      rw [trimStart]
      by_cases he : String.ofList (Text.trimLeft s.toList) = ""
      · rw [he, cons_empty]
        intro t ht
        exact absurd (hrest _ ht) (by simp [isText])
      · rw [cons_text_of_ne he hrest]
        intro t ht
        rw [← Inline.text.inj (Option.some.inj ht), String.toList_ofList]
        exact Text.solidHead_trimLeft _

theorem solidStart_trimEnd {xs : List Inline} (h : SolidStart xs) : SolidStart (trimEnd xs) := by
  fun_cases trimEnd xs with
  | case1 => exact h
  | case2 s =>
    by_cases he : String.ofList (Text.trimRight s.toList) = ""
    · rw [he, cons_empty]
      exact fun t ht => absurd ht (by simp)
    · rw [cons_text_of_ne he (by simp)]
      intro t ht
      rw [← Inline.text.inj (Option.some.inj ht), String.toList_ofList]
      exact Text.solidHead_trimRight (h s rfl)
  | case3 i rest _ => exact h

theorem solidEnd_trimEnd {xs : List Inline} (h : IsNormalList xs) : SolidEnd (trimEnd xs) := by
  rcases List.eq_nil_or_concat' xs with rfl | ⟨ys, i, rfl⟩
  · exact fun s hs => absurd hs (by simp [trimEnd])
  rcases i.isText_eq_false_or with hi | ⟨s, rfl⟩
  · rw [trimEnd_concat_of_not_isText hi]
    intro s hs
    rw [List.getLast?_concat] at hs
    rw [Option.some.inj hs] at hi
    exact absurd hi (by simp [isText])
  · have hys := getLast?_isText_of_isNormalList h
    rw [trimEnd_concat_text]
    by_cases he : String.ofList (Text.trimRight s.toList) = ""
    · rw [he, cons_empty, List.append_nil]
      intro t ht
      exact absurd (hys _ ht) (by simp [isText])
    · rw [cons_text_of_ne he (by simp)]
      intro t ht
      rw [List.getLast?_concat] at ht
      rw [← Inline.text.inj (Option.some.inj ht), String.toList_ofList]
      exact Text.solidLast_trimRight _

theorem solidStart_tidy (xs : List Inline) : SolidStart (tidy xs) :=
  solidStart_trimEnd (solidStart_trimStart (lined_normalizeList xs).normal)

theorem solidEnd_tidy (xs : List Inline) : SolidEnd (tidy xs) :=
  solidEnd_trimEnd (lined_normalizeList xs).trimStart.normal

theorem trimStart_eq_self {xs : List Inline} (h : IsNormalList xs) (hs : SolidStart xs) :
    trimStart xs = xs := by
  fun_cases trimStart xs with
  | case1 s rest =>
    rw [Text.trimLeft_eq_self (hs s rfl), String.ofList_toList]
    exact cons_eq_of_isNormalList h
  | case2 => rfl

theorem trimEnd_eq_self {xs : List Inline} (h : IsNormalList xs) (he : SolidEnd xs) :
    trimEnd xs = xs := by
  rcases List.eq_nil_or_concat' xs with rfl | ⟨ys, i, rfl⟩
  · rfl
  rcases i.isText_eq_false_or with hi | ⟨s, rfl⟩
  · exact trimEnd_concat_of_not_isText hi ys
  · rw [trimEnd_concat_text, Text.trimRight_eq_self (he s List.getLast?_concat),
      String.ofList_toList]
    congr 1
    exact cons_eq_of_isNormalList (isNormalList_append h).2

/-- **A sequence on a line that is solid at both ends** comes back as it is. -/
theorem tidy_eq_self {xs : List Inline} (h : Lined xs) (hs : SolidStart xs) (he : SolidEnd xs) :
    tidy xs = xs := by
  rw [tidy, h.normalizeList_spaceEndsList, trimStart_eq_self h.normal hs,
    trimEnd_eq_self h.normal he]

/-! ### The blank line -/

theorem tokenize_ne_nil {s : List Char} (hs : s ≠ []) :
    ∃ i rest, tokenize s = i :: rest ∧ Inline.normalize i ≠ .text "" := by
  obtain ⟨c, s, rfl⟩ := List.exists_cons_of_ne_nil hs
  -- a backslash is read as a command or as itself, anything else begins a text
  by_cases hc : c = '\\'
  · subst hc
    cases hr : Command.read? s with
    | none =>
      rw [tokenize, if_pos rfl]
      split <;> rename_i h <;> rw [hr] at h <;> cases h
      refine ⟨_, _, rfl, ?_⟩
      simp [Inline.normalize]
    | some r =>
      obtain ⟨cmd, rest⟩ := r
      refine ⟨_, _, tokenize_command hr, ?_⟩
      cases cmd <;> simp [Command.inline, Inline.normalize]
  · refine ⟨_, _, tokenize_literal hc s, ?_⟩
    simp [Inline.normalize]

/-- Nothing but an empty text is read as no inlines. -/
theorem eq_nil_of_normalizeList_tokenize {s : List Char}
    (h : normalizeList (tokenize s) = []) : s = [] := by
  by_contra hs
  obtain ⟨i, rest, ht, hi⟩ := tokenize_ne_nil hs
  rw [ht, normalizeList_cons] at h
  -- the first inline is no empty text, so it is still there after the step
  cases hn : Inline.normalize i with
  | text t =>
    rw [hn] at h hi
    have ht : t ≠ "" := fun he => hi (by rw [he])
    unfold cons at h
    dsimp only at h
    rw [if_neg ht] at h
    split at h <;> exact absurd h (List.cons_ne_nil _ _)
  | _ =>
    rw [hn] at h
    exact absurd h (List.cons_ne_nil _ _)

theorem tokenize_eq_nil_iff {s : List Char} : tokenize s = [] ↔ s = [] := by
  refine ⟨fun h => eq_nil_of_normalizeList_tokenize ?_, fun h => h ▸ tokenize_nil⟩
  rw [h, normalizeList]

/-- A blank line is what inlines leave of which nothing comes back. -/
theorem tidy_eq_nil_iff {xs : List Inline} :
    tidy xs = [] ↔ Text.trim (printInlines xs) = [] := by
  rw [← normalizeList_tokenize_trim]
  constructor
  · exact eq_nil_of_normalizeList_tokenize
  · intro h
    rw [h, tokenize_nil]
    rfl

/-! ### The beginning of a line -/

/-- What a line that is no part of a paragraph begins with. -/
def blockCommands : List (List Char) :=
  preambleCommands ++ sectioning.map Prod.fst ++
    ["\\hrule".toList, "\\hline".toList, "\\begin\x7b".toList, "\\item".toList, ['%']]

/-- Whether a line begins like something else than a paragraph. -/
def startsBlock (line : List Char) : Bool :=
  blockCommands.any fun command => Text.startsWith command line

theorem startsBlock_eq_false_iff {line : List Char} :
    startsBlock line = false ↔ ∀ command ∈ blockCommands, ¬ command <+: line := by
  simp only [startsBlock, List.any_eq_false, Text.startsWith_iff]

/-- A part at the beginning of a line begins no block that the line does not begin. -/
theorem startsBlock_of_isPrefix {s t : List Char} (h : startsBlock t = false) (hs : s <+: t) :
    startsBlock s = false := by
  rw [startsBlock_eq_false_iff] at h ⊢
  intro command hc hp
  exact h command hc (hp.trans hs)

theorem startsBlock_of_isInertChar {c : Char} (h : isInertChar c = true) (s : List Char) :
    startsBlock (c :: s) = false := by
  obtain ⟨hb, -, -, -, hp, -⟩ := ne_of_isInertChar h
  -- all commands begin with a character that is not inert
  have hhead : ∀ command ∈ blockCommands,
      command.head? = some '\\' ∨ command.head? = some '%' := by decide
  rw [startsBlock_eq_false_iff]
  intro command hc hs
  obtain ⟨rest, hs⟩ := hs
  cases command with
  | nil => exact absurd (hhead _ hc) (by simp)
  | cons d command =>
    have hd : d = c := (List.cons.inj hs).1
    rcases hhead _ hc with hh | hh
    · exact hb (hd.symm.trans (Option.some.inj hh))
    · exact hp (hd.symm.trans (Option.some.inj hh))

theorem startsBlock_escapeChar (c : Char) (s : List Char) :
    startsBlock (escapeChar c ++ s) = false := by
  unfold escapeChar
  split
  case h_13 =>
    apply startsBlock_of_isInertChar
    simp_all [isInertChar]
  all_goals rfl

/-- **Printed inlines begin no other block.** -/
theorem startsBlock_printInlines (xs : List Inline) : startsBlock (printInlines xs) = false := by
  induction xs with
  | nil => decide
  | cons i rest ih =>
    rw [printInlines_cons]
    match i with
    | .text s =>
      rw [printInline_text, escape]
      cases s.toList with
      | nil => exact ih
      | cons c s =>
        rw [List.flatMap_cons, List.append_assoc]
        exact startsBlock_escapeChar c _
    | .strong _ | .emphasis _ | .underline _ | .code _ | .lineBreak | .link _ _ | .image _ none
    | .image _ (some _) => rfl

/-- A printed line without the blanks around it is the beginning of one. -/
theorem exists_trim_printInlines (xs : List Inline) :
    ∃ ys, Text.trim (printInlines xs) <+: printInlines ys := by
  refine ⟨trimStart (normalizeList (spaceEndsList xs)), ?_⟩
  rw [← printInlines_spaceEndsList xs, ← printInlines_normalizeList, Text.trim,
    trimLeft_printInlines (lined_normalizeList xs).normal]
  exact Text.trimRight_isPrefix _

theorem startsBlock_trim (xs : List Inline) :
    startsBlock (Text.trim (printInlines xs)) = false := by
  obtain ⟨ys, h⟩ := exists_trim_printInlines xs
  exact startsBlock_of_isPrefix (startsBlock_printInlines ys) h

theorem stripComment_trim (xs : List Inline) :
    stripComment (Text.trim (printInlines xs)) = Text.trim (printInlines xs) := by
  obtain ⟨ys, t, h⟩ := exists_trim_printInlines xs
  apply stripComment_eq_self_of_append (t := t)
  rw [h]
  exact stripComment_eq_self (inert_printInlines ys)

end Latex

end Interdoc

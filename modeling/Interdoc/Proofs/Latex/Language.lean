import Interdoc.Markdown.ToDocument
import Interdoc.Proofs.Latex.Matching
import Interdoc.Proofs.Latex.VerbatimLine

/-!
# Languages of code

The language of code is written into the option of a listing as it is, without braces around it and
without escapes.  Markdown takes any word for a language, so the word can hold characters that mean
something in an option: it comes back exactly if it is an `IsOptionValue`
(`parse_print_listing_eq_self_iff`).  `\x7br\x7d` loses its braces, `rust,ignore` what is behind the
comma, and a percent sign even the closing bracket, so that the option becomes part of the code
(`parse_print_braced_language`).

What an option list looks at are its `exposed` characters, those outside all braces that no
backslash hides.  The bracket behind a value closes the list if it is exposed and the exposed
brackets of the value are balanced (`closeBracket?_concat_iff`); the value is left whole if none of
its exposed characters is a comma (`splitTopFrom_eq_singleton`).

No reader makes a value longer (`length_of_listingArguments`).  So a language that comes back has
used up the whole line behind the opening marker, and each scan on the way has kept all that it was
given (`isOptionValue_of_parseBlocks`).
-/

namespace Interdoc.Latex

/-! ### Exposed characters -/

/-- The characters of a text outside all braces, `depth` of which are open before it, that no
backslash hides.  The braces are not among them. -/
def exposed : (depth : Nat) → List Char → List Char
  | _, [] => []
  | _, ['\\'] => []
  | depth, '\\' :: _ :: s => exposed depth s
  | depth, '\x7b' :: s => exposed (depth + 1) s
  | depth, '\x7d' :: s => exposed (depth - 1) s
  | 0, c :: s => c :: exposed 0 s
  | depth + 1, _ :: s => exposed (depth + 1) s

/-- Brackets as markers that open and close. -/
def brackets (s : List Char) : List Marker :=
  s.filterMap fun c => if c = '[' then some .opening else if c = ']' then some .closing else none

theorem brackets_cons_of_ne {c : Char} (ho : c ≠ '[') (hc : c ≠ ']') (s : List Char) :
    brackets (c :: s) = brackets s := by
  rw [brackets, List.filterMap_cons_none]
  · rfl
  · rw [if_neg ho, if_neg hc]

theorem exposed_char {c : Char} (h : c ≠ '\\') (h' : c ≠ '\x7b') (h'' : c ≠ '\x7d')
    (s : List Char) : exposed 0 (c :: s) = c :: exposed 0 s := by
  rw [exposed]
  · exact fun he _ => h he
  · exact fun _ _ he _ => h he
  · exact h'
  · exact h''

theorem exposed_braced {c : Char} (h : c ≠ '\\') (h' : c ≠ '\x7b') (h'' : c ≠ '\x7d')
    (depth : Nat) (s : List Char) : exposed (depth + 1) (c :: s) = exposed (depth + 1) s := by
  rw [exposed]
  · exact fun he _ => h he
  · exact fun _ _ he _ => h he
  · exact h'
  · exact h''

/-- **A bracket behind a text closes a list** if it is exposed and the exposed brackets of the text
close what is open. -/
theorem closeBracket?_concat_iff (depth braces : Nat) (s : List Char) :
    closeBracket? depth braces (s ++ [']']) = some (s, []) ↔
      exposed braces (s ++ [']']) = exposed braces s ++ [']'] ∧
        depthAfter? depth (brackets (exposed braces s)) = some 0 := by
  have hcons (c : Char) (s t : List Char) (r : Option (List Char × List Char)) :
      r.map (consContent c) = some (c :: s, t) ↔ r = some (s, t) := by
    cases r <;> simp [consContent, Prod.ext_iff]
  -- the search and the exposed characters go through the text in the same steps
  fun_induction exposed braces s generalizing depth with
  | case1 braces =>
    cases braces with
    | zero => cases depth <;> simp [closeBracket?, exposed, brackets, depthAfter?]
    | succ braces => simp [closeBracket?, exposed]
  | case2 braces => simp [closeBracket?, exposed]
  | case3 braces c s ih =>
    have hs (depth : Nat) : closeBracket? depth _ (s ++ [']']) = some (s, []) ↔ _ := ih depth
    have hmap := hcons '\\' (c :: s) []
      ((closeBracket? depth braces (s ++ [']'])).map (consContent c))
    rw [Option.map_map, hcons] at hmap
    rw [List.cons_append, List.cons_append, closeBracket?, hmap, hs depth, exposed]
  | case4 braces s ih =>
    have hs (depth : Nat) : closeBracket? depth _ (s ++ [']']) = some (s, []) ↔ _ := ih depth
    rw [List.cons_append, closeBracket?, hcons, hs depth, exposed]
  | case5 braces s ih =>
    have hs (depth : Nat) : closeBracket? depth _ (s ++ [']']) = some (s, []) ↔ _ := ih depth
    rw [List.cons_append, closeBracket?, hcons, hs depth, exposed]
  | case6 c s h₁ h₂ h₃ h₄ ih =>
    have hs (depth : Nat) : closeBracket? depth _ (s ++ [']']) = some (s, []) ↔ _ := ih depth
    have hc := ne_backslash h₁ h₂
    rw [List.cons_append, exposed_char hc h₃ h₄, List.cons_append, List.cons_inj_right]
    by_cases ho : c = '['
    · subst ho
      rw [closeBracket?, hcons, hs]
      rfl
    by_cases hb : c = ']'
    · subst hb
      cases depth with
      | zero => simp [closeBracket?, brackets, depthAfter?]
      | succ depth =>
        rw [closeBracket?, hcons, hs]
        rfl
    · rw [closeBracket?_char hc h₃ h₄ (.inr ⟨ho, hb⟩), hcons, hs, brackets_cons_of_ne ho hb]
  | case7 braces c s h₁ h₂ h₃ h₄ ih =>
    have hs (depth : Nat) : closeBracket? depth _ (s ++ [']']) = some (s, []) ↔ _ := ih depth
    have hc := ne_backslash h₁ h₂
    rw [List.cons_append, closeBracket?_char hc h₃ h₄ (.inl (Nat.succ_pos braces)), hcons, hs,
      exposed_braced hc h₃ h₄]

/-- **A text is left whole** by a separator that is not exposed in it. -/
theorem splitTopFrom_eq_singleton {sep : Char} {depth : Nat} {s : List Char}
    (h : sep ∉ exposed depth s) : splitTopFrom sep depth s = [s] := by
  fun_induction exposed depth s with
  | case1 depth => rfl
  | case2 depth => rfl
  | case3 depth c s ih =>
    rw [splitTopFrom, ih h]
    rfl
  | case4 depth s ih =>
    rw [splitTopFrom, ih h]
    rfl
  | case5 depth s ih =>
    rw [splitTopFrom, ih h]
    rfl
  | case6 c s h₁ h₂ h₃ h₄ ih =>
    rw [List.mem_cons, not_or] at h
    rw [splitTopFrom_char (ne_backslash h₁ h₂) h₃ h₄ (.inl (Ne.symm h.1)), ih h.2]
    rfl
  | case7 depth c s h₁ h₂ h₃ h₄ ih =>
    rw [splitTopFrom_char (ne_backslash h₁ h₂) h₃ h₄ (.inr (Nat.succ_pos depth)), ih h]
    rfl

theorem ne_nil_of_mem_exposed {c : Char} {depth : Nat} {s : List Char}
    (h : c ∈ exposed depth s) : s ≠ [] := by
  rintro rfl
  rw [exposed] at h
  exact absurd h List.not_mem_nil

/-- **A text is cut** by a separator that is exposed in it, so every piece is shorter. -/
theorem length_lt_of_mem_splitTopFrom {sep : Char} {depth : Nat} {s : List Char}
    (h : sep ∈ exposed depth s) : ∀ p ∈ splitTopFrom sep depth s, p.length < s.length := by
  have hcons (c : Char) {s : List Char} {pieces : List (List Char)} (hs : s ≠ [])
      (hp : ∀ p ∈ pieces, p.length < s.length) :
      ∀ p ∈ consPiece c pieces, p.length < (c :: s).length := by
    intro p hmem
    have hpos := List.length_pos_of_ne_nil hs
    have hle : p.length ≤ s.length - 1 + 1 :=
      length_of_mem_consPiece (fun q hq => Nat.le_pred_of_lt (hp q hq)) p hmem
    rw [List.length_cons]
    omega
  fun_induction exposed depth s with
  | case1 depth => exact absurd h List.not_mem_nil
  | case2 depth => exact absurd h List.not_mem_nil
  | case3 depth c s ih =>
    rw [splitTopFrom]
    exact hcons _ (List.cons_ne_nil _ _) (hcons c (ne_nil_of_mem_exposed h) (ih h))
  | case4 depth s ih =>
    rw [splitTopFrom]
    exact hcons _ (ne_nil_of_mem_exposed h) (ih h)
  | case5 depth s ih =>
    rw [splitTopFrom]
    exact hcons _ (ne_nil_of_mem_exposed h) (ih h)
  | case6 c s h₁ h₂ h₃ h₄ ih =>
    -- the first cut makes all pieces shorter
    by_cases hc : c = sep
    · subst hc
      rw [splitTopFrom, if_pos (by simp)]
      · intro p hp
        rcases List.mem_cons.mp hp with rfl | hp
        · exact Nat.succ_pos _
        · exact Nat.lt_succ_of_le (length_of_mem_splitTopFrom hp)
      · exact h₁
      · exact h₂
      · exact h₃
      · exact h₄
    · have hs := (List.mem_cons.mp h).resolve_left (Ne.symm hc)
      rw [splitTopFrom_char (ne_backslash h₁ h₂) h₃ h₄ (.inl hc)]
      exact hcons c (ne_nil_of_mem_exposed hs) (ih hs)
  | case7 depth c s h₁ h₂ h₃ h₄ ih =>
    rw [splitTopFrom_char (ne_backslash h₁ h₂) h₃ h₄ (.inr (Nat.succ_pos depth))]
    exact hcons c (ne_nil_of_mem_exposed h) (ih h)

/-! ### Values of options -/

/-- A value that an option list gives back as it is. -/
structure IsOptionValue (s : List Char) : Prop where
  /-- No comment begins in the value. -/
  uncommented : stripComment s = s
  /-- The listing does not end in the value. -/
  unclosed : ¬ closingMarker "lstlisting".toList <:+: s
  /-- A bracket behind the value is not hidden by what is in it. -/
  closed : exposed 0 (s ++ [']']) = exposed 0 s ++ [']']
  balanced : Balanced (brackets (exposed 0 s))
  whole : ',' ∉ exposed 0 s
  /-- There is no brace at the start, where it would be taken off. -/
  bareHead : ∀ c ∈ s.head?, c ∉ ['\x7b', '\x7d']
  bareLast : ∀ c ∈ s.getLast?, c ∉ ['\x7b', '\x7d']

instance (s : List Char) : Decidable (IsOptionValue s) :=
  decidable_of_iff (stripComment s = s ∧ ¬ closingMarker "lstlisting".toList <:+: s ∧
      exposed 0 (s ++ [']']) = exposed 0 s ++ [']'] ∧ Balanced (brackets (exposed 0 s)) ∧
      ',' ∉ exposed 0 s ∧ (∀ c ∈ s.head?, c ∉ ['\x7b', '\x7d']) ∧
      ∀ c ∈ s.getLast?, c ∉ ['\x7b', '\x7d'])
    ⟨fun h => ⟨h.1, h.2.1, h.2.2.1, h.2.2.2.1, h.2.2.2.2.1, h.2.2.2.2.2.1, h.2.2.2.2.2.2⟩,
      fun h => ⟨h.1, h.2, h.3, h.4, h.5, h.6, h.7⟩⟩

/-- The option list that names a language. -/
def languageOption (language : List Char) : List Char :=
  "[language=".toList ++ language ++ [']']

theorem length_languageOption (s : List Char) : (languageOption s).length = s.length + 11 := by
  have hkey : "[language=".toList.length = 10 := rfl
  unfold languageOption
  rw [List.length_append, List.length_append, hkey, List.length_singleton]
  omega

theorem dropWhile_eq_self_iff {p : Char → Bool} {s : List Char} :
    s.dropWhile p = s ↔ ∀ c ∈ s.head?, p c = false := by
  cases s with
  | nil => simp
  | cons c s =>
    cases hc : p c with
    | false => simp [hc]
    | true =>
      -- the text that is left is shorter
      have hle := (List.dropWhile_suffix p (l := s)).length_le
      rw [List.dropWhile_cons_of_pos hc]
      refine iff_of_false (fun he => ?_) (by simp [hc])
      rw [he, List.length_cons] at hle
      omega

theorem trimBraces_isInfix (s : List Char) : trimBraces s <:+: s :=
  (List.rdropWhile_prefix _ _).isInfix.trans (List.dropWhile_suffix _).isInfix

/-- Braces are taken off a value that begins or ends with one. -/
theorem trimBraces_eq_self_iff {s : List Char} :
    trimBraces s = s ↔ (∀ c ∈ s.head?, c ∉ ['\x7b', '\x7d']) ∧
      ∀ c ∈ s.getLast?, c ∉ ['\x7b', '\x7d'] := by
  let isBrace (c : Char) : Bool := c == '\x7b' || c == '\x7d'
  have hbrace (c : Char) : isBrace c = false ↔ c ∉ ['\x7b', '\x7d'] := by
    simp [isBrace]
  have hleft : s.dropWhile isBrace = s ↔ ∀ c ∈ s.head?, c ∉ ['\x7b', '\x7d'] := by
    rw [dropWhile_eq_self_iff]
    simp only [hbrace]
  have hright : Text.dropRightWhile isBrace s = s ↔
      ∀ c ∈ s.getLast?, c ∉ ['\x7b', '\x7d'] := by
    rw [Text.dropRightWhile, List.reverse_eq_iff, dropWhile_eq_self_iff, List.head?_reverse]
    simp only [hbrace]
  have hdef : trimBraces s = Text.dropRightWhile isBrace (s.dropWhile isBrace) := rfl
  constructor
  · intro h
    have hprefix : trimBraces s <+: s.dropWhile isBrace := List.rdropWhile_prefix _ _
    -- trimming on the right cannot make up for what is lost on the left
    have hdrop : s.dropWhile isBrace = s := by
      refine (List.dropWhile_suffix isBrace).eq_of_length_le ?_
      exact (congrArg List.length h).ge.trans hprefix.length_le
    rw [hdef, hdrop] at h
    exact ⟨hleft.mp hdrop, hright.mp h⟩
  · rintro ⟨hhead, hlast⟩
    rw [hdef, hleft.mpr hhead, hright.mpr hlast]

/-! ### Reading an option -/

theorem closeBracket?_eq_some {depth braces : Nat} {s content rest : List Char}
    (h : closeBracket? depth braces s = some (content, rest)) : s = content ++ ']' :: rest := by
  fun_induction closeBracket? depth braces s generalizing content rest <;>
    simp_all [Option.map_eq_some_iff, consContent, Prod.ext_iff] <;>
    grind

theorem splitEquals?_eq_some {s key value : List Char}
    (h : Command.splitEquals? s = some (key, value)) : s = key ++ '=' :: value := by
  fun_induction Command.splitEquals? s generalizing key value with
  | case1 => cases h
  | case2 s =>
    cases h
    rfl
  | case3 c s _ ih =>
    obtain ⟨⟨before, after⟩, hs, he⟩ := Option.map_eq_some_iff.mp h
    cases he
    rw [ih hs, List.cons_append]

/-- The language is the value of an entry, which is not longer than the rest of the entry. -/
theorem exists_mem_of_language? {entries : List (List Char)} {language : List Char}
    (h : language? entries = some language) :
    ∃ entry ∈ entries, language? [entry] = some language ∧ language.length + 9 ≤ entry.length := by
  fun_induction language? entries with
  | case1 => cases h
  | case2 entry rest key value he hk =>
    refine ⟨entry, List.mem_cons_self, ?_, ?_⟩
    · rw [language?, he]
      dsimp only
      rw [if_pos hk, h]
    · -- the key is the only other text in the entry
      have hkey : "language".toList.length ≤ key.length := hk ▸ Command.length_trim key
      have hvalue : language.length ≤ value.length := by
        rw [← Option.some_inj.mp h]
        exact (trimBraces_isInfix _).length_le.trans (Command.length_trim value)
      have hlength : "language".toList.length = 8 := rfl
      rw [splitEquals?_eq_some he, List.length_append, List.length_cons]
      omega
  | case3 entry rest key value he hk ih =>
    obtain ⟨found, hmem, hfound⟩ := ih h
    exact ⟨found, List.mem_cons_of_mem _ hmem, hfound⟩
  | case4 entry rest he ih =>
    obtain ⟨found, hmem, hfound⟩ := ih h
    exact ⟨found, List.mem_cons_of_mem _ hmem, hfound⟩

/-- A listing with a language begins with an option list. -/
theorem exists_options_of_listingArguments {opening language : List Char}
    (h : (listingArguments "lstlisting".toList opening).1 = some language) :
    ∃ options after, Text.trimLeft opening = '[' :: (options ++ ']' :: after) ∧
      closeBracket? 0 0 (options ++ ']' :: after) = some (options, after) ∧
      language? (splitTop ',' options) = some language := by
  rw [listingArguments, if_pos rfl] at h
  cases hb : bracketed? (Text.trimLeft opening) with
  | none =>
    rw [hb] at h
    cases h
  | some found =>
    obtain ⟨options, after⟩ := found
    rw [hb] at h
    unfold bracketed? at hb
    split at hb
    · next s hs =>
      have hcontent := closeBracket?_eq_some hb
      rw [hcontent] at hs hb
      exact ⟨options, after, hs, hb, h⟩
    · cases hb

/-- **No reader makes a value longer**: the opening line of a listing has room for its language. -/
theorem length_of_listingArguments {opening language : List Char}
    (h : (listingArguments "lstlisting".toList opening).1 = some language) :
    language.length + 11 ≤ opening.length := by
  obtain ⟨options, after, htrim, -, hlanguage⟩ := exists_options_of_listingArguments h
  obtain ⟨entry, hentry, -, hlength⟩ := exists_mem_of_language? hlanguage
  have hpiece : entry.length ≤ options.length := length_of_mem_splitTopFrom hentry
  have hopening : (Text.trimLeft opening).length ≤ opening.length :=
    (List.dropWhile_suffix _).length_le
  rw [htrim, List.length_cons, List.length_append, List.length_cons] at hopening
  omega

/-! ### The option that names a language -/

theorem exposed_option (s : List Char) :
    exposed 0 ("language=".toList ++ s) = "language=".toList ++ exposed 0 s := rfl

/-- Nothing in the key of the option is a separator. -/
theorem comma_mem_exposed_option {s : List Char} :
    ',' ∈ exposed 0 ("language=".toList ++ s) ↔ ',' ∈ exposed 0 s := by
  rw [exposed_option, List.mem_append, or_iff_right (by decide)]

theorem language?_option (s : List Char) :
    language? ["language=".toList ++ s] = some (trimBraces (Text.trim s)) := rfl

theorem languageOption_eq_cons (s : List Char) :
    languageOption s = '[' :: ("language=".toList ++ s ++ [']']) := rfl

theorem languageOption_eq_append (s : List Char) :
    languageOption s = "[language=".toList ++ (s ++ [']']) := List.append_assoc _ _ _

/-- The bracket behind a value closes the list. -/
theorem closeBracket?_option_iff (s : List Char) :
    closeBracket? 0 0 ("language=".toList ++ s ++ [']']) = some ("language=".toList ++ s, []) ↔
      exposed 0 (s ++ [']']) = exposed 0 s ++ [']'] ∧ Balanced (brackets (exposed 0 s)) := by
  have hbrackets (t : List Char) : brackets ("language=".toList ++ t) = brackets t := rfl
  have hbalanced {ms : List Marker} : depthAfter? 0 ms = some 0 ↔ Balanced ms := by
    refine ⟨fun h => ?_, fun h => h.depthAfter?_eq 0⟩
    obtain ⟨hordered, htotal⟩ := depthAfter?_eq_some_iff.mp h
    exact ⟨by omega, by simpa using hordered⟩
  rw [closeBracket?_concat_iff, exposed_option, hbrackets, hbalanced, List.append_assoc,
    exposed_option, List.append_assoc, List.append_right_inj]

theorem trimLeft_languageOption (s : List Char) :
    Text.trimLeft (languageOption s) = languageOption s :=
  Text.trimLeft_eq_self (Text.solidHead_cons.mpr (by decide))

/-- A value that the option list leaves alone is read as it is. -/
theorem IsOptionValue.listingArguments {s : List Char} (h : IsOptionValue s)
    (htrim : Text.trim s = s) :
    Latex.listingArguments "lstlisting".toList (languageOption s) = (some s, []) := by
  have hbracket : bracketed? (languageOption s) = some ("language=".toList ++ s, []) :=
    (closeBracket?_option_iff s).mpr ⟨h.closed, h.balanced⟩
  have hsplit : splitTop ',' ("language=".toList ++ s) = ["language=".toList ++ s] :=
    splitTopFrom_eq_singleton (mt comma_mem_exposed_option.mp h.whole)
  have hvalue : trimBraces (Text.trim s) = s := by
    rw [htrim, trimBraces_eq_self_iff]
    exact ⟨h.bareHead, h.bareLast⟩
  rw [Latex.listingArguments, trimLeft_languageOption, hbracket]
  dsimp only
  rw [if_pos rfl, hsplit, language?_option, hvalue]

/-- **Whatever is read as it is** has been left alone by the whole option list: the entry is as
long as the list, and the value as the entry. -/
theorem isOptionValue_of_listingArguments {s : List Char} (htrim : Text.trim s = s)
    (huncommented : stripComment s = s) (hunclosed : ¬ closingMarker "lstlisting".toList <:+: s)
    (h : (Latex.listingArguments "lstlisting".toList (languageOption s)).1 = some s) :
    IsOptionValue s := by
  obtain ⟨options, after, hoption, hclose, hlanguage⟩ := exists_options_of_listingArguments h
  obtain ⟨entry, hentry, hvalue, hlength⟩ := exists_mem_of_language? hlanguage
  have hpiece : entry.length ≤ options.length := length_of_mem_splitTopFrom hentry
  rw [trimLeft_languageOption] at hoption
  have htotal := congrArg List.length hoption
  rw [length_languageOption, List.length_cons, List.length_append, List.length_cons] at htotal
  -- the lengths add up only if the search took in all of the option
  have hafter : after = [] := List.length_eq_zero_iff.mp (by omega)
  subst hafter
  have hoptions : "language=".toList ++ s = options := by
    rw [languageOption_eq_cons, List.cons_inj_right, List.append_left_inj] at hoption
    exact hoption
  subst hoptions
  -- and if the separator cut nothing off
  have hwhole : ',' ∉ exposed 0 ("language=".toList ++ s) := by
    intro hmem
    have hlt := length_lt_of_mem_splitTopFrom hmem entry hentry
    omega
  rw [splitTop, splitTopFrom_eq_singleton hwhole, language?_option, htrim,
    Option.some_inj] at hlanguage
  obtain ⟨hclosed, hbalanced⟩ := (closeBracket?_option_iff s).mp hclose
  obtain ⟨hhead, hlast⟩ := trimBraces_eq_self_iff.mp hlanguage
  exact ⟨huncommented, hunclosed, hclosed, hbalanced, mt comma_mem_exposed_option.mpr hwhole,
    hhead, hlast⟩

/-! ### The line of the option -/

/-- The line that opens a listing with a language. -/
def listingLine (language : List Char) : Line :=
  openingMarker "lstlisting".toList ++ languageOption language

variable {s : List Char}

theorem stripComment_languageOption_iff :
    stripComment (languageOption s) = languageOption s ↔ stripComment s = s := by
  have hkey (t : List Char) :
      stripComment ("[language=".toList ++ t) = "[language=".toList ++ stripComment t := rfl
  rw [languageOption_eq_append, hkey, List.append_right_inj]
  exact ⟨stripComment_eq_self_of_append, fun h => stripComment_append_of_eq h (by decide)⟩

/-- The marker does not reach out of the value: it begins with a backslash and ends with a brace. -/
theorem closingMarker_isInfix_languageOption_iff {name : List Char} :
    closingMarker name <:+: languageOption s ↔ closingMarker name <:+: s := by
  have hfirst {key t : List Char} (hkey : ∀ c ∈ key, c ≠ '\\') :
      closingMarker name <:+: key ++ t ↔ closingMarker name <:+: t := by
    induction key with
    | nil => rfl
    | cons c key ih =>
      rw [List.forall_mem_cons] at hkey
      rw [List.cons_append, List.infix_cons_iff, or_iff_right, ih hkey.2]
      exact fun h => hkey.1 (List.cons_prefix_cons.mp h).1.symm
  have hlast : ¬ closingMarker name <:+ s ++ [']'] := by
    rintro ⟨t, ht⟩
    rw [closingMarker, ← List.append_assoc] at ht
    exact absurd (List.append_inj_right' ht rfl) (by decide)
  rw [languageOption_eq_append, hfirst (by decide), List.infix_concat_iff, or_iff_right hlast]

theorem opening?_listingLine (s : List Char) :
    opening? (significant (listingLine s)) =
      some ("lstlisting".toList, Text.trimRight (stripComment (languageOption s))) := by
  have htrim : Text.trim (listingLine s) = listingLine s := by
    refine Text.trim_eq_self (Text.solidHead_cons.mpr (by decide)) ?_
    rw [listingLine, languageOption_eq_append, ← List.append_assoc, ← List.append_assoc,
      Text.solidLast_concat]
    decide
  refine opening?_significant (by decide) ?_
  rw [htrim]
  rfl

/-! ### Listings -/

/-- **A listing with a value for its language** is read up to its closing marker. -/
theorem parseBlocks_listing (h : IsOptionValue s) (htrim : Text.trim s = s) (hne : s ≠ [])
    {code : List Line} (hcode : ∀ line ∈ code, ¬ closingMarker "lstlisting".toList <:+: line)
    (rest : List Line) :
    parseBlocks (listingLine s :: (code ++ closingMarker "lstlisting".toList :: rest)) =
      .code (String.ofList (Text.unlines code)) (some (String.ofList s)) :: parseBlocks rest := by
  have hverbatim : isVerbatim "lstlisting".toList = true := by decide
  have hstrip : stripComment (languageOption s) = languageOption s :=
    stripComment_languageOption_iff.mpr h.uncommented
  have hlast : Text.SolidLast (languageOption s) := by
    rw [languageOption_eq_append, ← List.append_assoc, Text.solidLast_concat]
    decide
  have hopen := opening?_listingLine s
  rw [hstrip, Text.trimRight_eq_self hlast] at hopen
  -- the option holds no closing marker, so the environment is still open behind its line
  have hscan : scanClose "lstlisting".toList 0 0 (languageOption s) = .stillOpen 0 :=
    scanClose_of_isVerbatim hverbatim (mt closingMarker_isInfix_languageOption_iff.mp h.unclosed) 0
  have hlanguage : Environment.language? ⟨"lstlisting".toList, languageOption s, code, []⟩ =
      some s := by
    rw [Environment.language?, h.listingArguments htrim, Option.filter_some, if_pos]
    simpa using hne
  have hlines : Environment.codeLines ⟨"lstlisting".toList, languageOption s, code, []⟩ = code := by
    rw [Environment.codeLines, h.listingArguments htrim]
    rfl
  have hblocks : environmentBlocks ⟨"lstlisting".toList, languageOption s, code, []⟩ =
      [.code (String.ofList (Text.unlines code)) (some (String.ofList s))] := by
    have hcodeBlock : Environment.code ⟨"lstlisting".toList, languageOption s, code, []⟩ =
        .code (String.ofList (Text.unlines code)) (some (String.ofList s)) := by
      rw [Environment.code, hlanguage, hlines]
      rfl
    rw [environmentBlocks, hcodeBlock]
    rfl
  rw [parseBlocks, segments_of_opening? hopen, collect_verbatim hverbatim hscan hcode, assemble,
    hblocks, parseBlocks]
  rfl

/-- A verbatim environment keeps all of its opening line, unless it ends there. -/
theorem collect_opening {name : List Char} (hv : isVerbatim name = true) (opening : List Char)
    (lines : List Line) :
    (collect name opening lines).1.name = name ∧
      (((collect name opening lines).1.opening = opening ∧ ¬ closingMarker name <:+: opening) ∨
        (collect name opening lines).1.opening.length < opening.length) := by
  have hdepth := depth?_scanClose_of_isVerbatim hv opening
  cases hs : scanClose name 0 0 opening with
  | closed before after =>
    have hlength := length_scanClose hs
    have hmarker := length_closingMarker name
    rw [collect, hs]
    exact ⟨rfl, .inr (show before.length < opening.length by omega)⟩
  | stillOpen depth =>
    rw [hs, CloseScan.depth?] at hdepth
    rw [collect, hs]
    refine ⟨rfl, .inl ⟨rfl, fun hi => ?_⟩⟩
    rw [if_pos hi] at hdepth
    cases hdepth

theorem exists_environmentBlocks_listing {e : Environment} (h : e.name = "lstlisting".toList) :
    ∃ more, environmentBlocks e = e.code :: more := by
  have hblocks : environmentBlocks e =
      if e.trailing.isEmpty then [e.code] else [e.code] ++ parseBlocks [e.trailing] := by
    rw [environmentBlocks, h]
    rfl
  rw [hblocks]
  split_ifs
  · exact ⟨[], rfl⟩
  · exact ⟨parseBlocks [e.trailing], rfl⟩

/-- **A language that is read from its line** is the value of an option: all of the line has been
used for it. -/
theorem isOptionValue_of_parseBlocks (htrim : Text.trim s = s) {lines : List Line} {text : String}
    {blocks : List Block}
    (h : parseBlocks (listingLine s :: lines) = .code text (some (String.ofList s)) :: blocks) :
    IsOptionValue s := by
  have hverbatim : isVerbatim "lstlisting".toList = true := by decide
  obtain ⟨hname, hopening⟩ := collect_opening hverbatim
    (Text.trimRight (stripComment (languageOption s))) lines
  rw [parseBlocks, segments_of_opening? (opening?_listingLine s), assemble] at h
  generalize (collect "lstlisting".toList (Text.trimRight (stripComment (languageOption s)))
    lines).1 = e at hname hopening h
  obtain ⟨more, hmore⟩ := exists_environmentBlocks_listing hname
  have hcode : e.code = .code text (some (String.ofList s)) := by
    rw [hmore] at h
    exact (List.cons.inj h).1
  have hlanguage : (listingArguments "lstlisting".toList e.opening).1 = some s := by
    have hfound : e.language?.map String.ofList = some (String.ofList s) := by
      injection hcode
    obtain ⟨found, hfilter, hfound⟩ := Option.map_eq_some_iff.mp hfound
    rw [String.ofList_inj.mp hfound, Environment.language?, hname] at hfilter
    exact (Option.filter_eq_some_iff.mp hfilter).1
  -- what is left of the line is not longer than the line, and has room for the language
  have hroom := length_of_listingArguments hlanguage
  have hcut := (Text.trimRight_isPrefix (stripComment (languageOption s))).length_le
  have hstrip := (stripComment_isPrefix (languageOption s)).length_le
  rw [length_languageOption] at hstrip
  rcases hopening with ⟨hopening, hunclosed⟩ | hshort
  · rw [hopening] at hroom hlanguage
    have huncommented : stripComment (languageOption s) = languageOption s := by
      refine (stripComment_isPrefix _).eq_of_length ?_
      rw [length_languageOption]
      omega
    have huncut : Text.trimRight (stripComment (languageOption s)) = languageOption s := by
      refine ((Text.trimRight_isPrefix _).eq_of_length ?_).trans huncommented
      omega
    rw [huncut] at hlanguage hunclosed
    exact isOptionValue_of_listingArguments htrim
      (stripComment_languageOption_iff.mp huncommented)
      (mt closingMarker_isInfix_languageOption_iff.mpr hunclosed) hlanguage
  · omega

/-! ### Documents -/

/-- Markdown takes any word for a language. -/
theorem exists_info_iff {language : String} :
    (∃ info, Markdown.language? info = some language) ↔
      language.toList ≠ [] ∧ ∀ c ∈ language.toList, Text.isBlankChar c = false := by
  constructor
  · rintro ⟨info, h⟩
    obtain ⟨word, hword, rfl⟩ := Option.map_eq_some_iff.mp h
    rw [String.toList_ofList]
    exact Text.mem_fields (List.mem_of_head? hword)
  · rintro ⟨hne, hsolid⟩
    refine ⟨language.toList, ?_⟩
    rw [Markdown.language?, Text.words, Text.fields_of_forall hne hsolid, List.head?_cons,
      Option.map_some, String.ofList_toList]

variable {language text : String}

theorem noReturn_languageOption (h : '\r' ∉ s) : '\r' ∉ languageOption s := by
  rw [languageOption_eq_append, List.mem_append, List.mem_append, not_or, not_or]
  exact ⟨by decide, h, by decide⟩

theorem noLineFeed_languageOption (h : '\n' ∉ s) : '\n' ∉ languageOption s := by
  rw [languageOption_eq_append, List.mem_append, List.mem_append, not_or, not_or]
  exact ⟨by decide, h, by decide⟩

theorem lines_print_listing (hl : ∀ c ∈ language.toList, Text.isBlankChar c = false)
    (ht : '\r' ∉ text.toList) :
    Text.lines (print {} ⟨[.code text (some language)]⟩) = listingLine language.toList ::
      (Text.splitOn '\n' text.toList ++ [closingMarker "lstlisting".toList]) := by
  have hname : IsName "lstlisting".toList := by decide
  have hnot {c : Char} (hc : Text.isBlankChar c = true) : c ∉ language.toList := fun hmem =>
    absurd hc (by rw [hl c hmem]; decide)
  have hprint : print {} ⟨[.code text (some language)]⟩ =
      environment "lstlisting" (languageOption language.toList) text.toList :=
    joinNonempty_singleton _ _
  rw [hprint, Text.lines_eq_splitOn _ _ (getLast?_environment _ _ _), splitOn_environment hname]
  · rfl
  · exact noLineFeed_languageOption (hnot (by decide))
  · exact noReturn_environment hname (noReturn_languageOption (hnot (by decide))) ht
  · decide

/-- A block that is code in normal form is that code. -/
theorem eq_code_of_normalizeList {blocks : List Block} {text : String} {language : Option String}
    (h : Block.normalizeList blocks = [.code text language]) : blocks = [.code text language] := by
  cases blocks with
  | nil => cases h
  | cons b blocks =>
    obtain ⟨hb, hrest⟩ := List.cons.inj h
    have hnil : blocks = [] := by
      cases blocks with
      | nil => rfl
      | cons _ _ => cases hrest
    rw [hnil]
    cases b with
    | code text language => exact congrArg ([·]) hb
    | table header rows alignments => cases header <;> cases hb
    | paragraph | heading | list | quote | rule => cases hb

/-- **A language of Markdown comes back exactly if it is the value of an option.** -/
theorem parse_print_listing_eq_self_iff (hl : ∃ info, Markdown.language? info = some language)
    (ht : IsKept "lstlisting".toList text.toList) :
    parse (print {} ⟨[.code text (some language)]⟩) = ⟨[.code text (some language)]⟩ ↔
      IsOptionValue language.toList := by
  obtain ⟨hne, hsolid⟩ := exists_info_iff.mp hl
  have htrim : Text.trim language.toList = language.toList := by
    refine Text.trim_eq_self (fun c hc => ?_) (fun c hc => ?_)
    · exact hsolid c (List.mem_of_head? hc)
    · exact hsolid c (List.mem_of_getLast? hc)
  rw [parse_eq, lines_print_listing hsolid ht.noReturn, readLines, Document.mk.injEq]
  constructor
  · intro h
    have hlanguage : some language = some (String.ofList language.toList) := by
      rw [String.ofList_toList]
    have hblocks := eq_code_of_normalizeList h
    rw [hlanguage] at hblocks
    exact isOptionValue_of_parseBlocks htrim hblocks
  · intro h
    -- code that is kept does not hold the closing marker in a line
    have hcode : ∀ line ∈ Text.splitOn '\n' text.toList,
        ¬ closingMarker "lstlisting".toList <:+: line := fun line hline hi =>
      ht.unclosed (hi.trans (Text.infix_of_mem_splitOn hline))
    rw [parseBlocks_listing h htrim hne hcode, parseBlocks_nil, unlines_splitOn,
      String.ofList_toList]
    rfl

/-- A language with brackets, a comma in braces and a percent sign that a backslash hides, around
code that closes another environment. -/
theorem parse_print_listing_brackets :
    let language := "Q[\x7b,]\x7d]\\%"
    let text := "\\end\x7bquote\x7d\n% x\n"
    ((∃ info, Markdown.language? info = some language) ∧
        IsKept "lstlisting".toList text.toList) ∧
      parse (print {} ⟨[.code text (some language)]⟩) = ⟨[.code text (some language)]⟩ := by
  intro language text
  have hl : ∃ info, Markdown.language? info = some language := ⟨language.toList, by decide⟩
  have ht : IsKept "lstlisting".toList text.toList := by decide
  exact ⟨⟨hl, ht⟩, (parse_print_listing_eq_self_iff hl ht).mpr (by decide)⟩

/-- **The braces around a language are lost**, and a percent sign makes the option part of the
code. -/
theorem parse_print_braced_language :
    Markdown.language? "\x7br\x7d".toList = some "\x7br\x7d" ∧
      parse (print {} ⟨[.code "x" (some "\x7br\x7d")]⟩) = ⟨[.code "x" (some "r")]⟩ ∧
      parse (print {} ⟨[.code "x" (some "\x7br\x7d")]⟩) ≠ ⟨[.code "x" (some "\x7br\x7d")]⟩ ∧
      parse (print {} ⟨[.code "x" (some "c%")]⟩) = ⟨[.code "[language=c\nx" none]⟩ := by
  have hread {language : String} {e : Environment} {code : Block}
      (hl : ∀ c ∈ language.toList, Text.isBlankChar c = false)
      (hcollect : collect "lstlisting".toList
          (Text.trimRight (stripComment (languageOption language.toList)))
          ["x".toList, closingMarker "lstlisting".toList] = (e, []))
      (hblocks : environmentBlocks e = [code]) (hnormal : code.normalize = code) :
      parse (print {} ⟨[.code "x" (some language)]⟩) = ⟨[code]⟩ := by
    have hx : Text.splitOn '\n' "x".toList ++ [closingMarker "lstlisting".toList] =
        ["x".toList, closingMarker "lstlisting".toList] := rfl
    rw [parse_eq, lines_print_listing hl (by decide), readLines, parseBlocks, hx,
      segments_of_opening? (opening?_listingLine language.toList), hcollect, assemble, hblocks,
      ← parseBlocks, parseBlocks_nil]
    change Document.mk [code.normalize] = ⟨[code]⟩
    rw [hnormal]
  have hbraces : parse (print {} ⟨[.code "x" (some "\x7br\x7d")]⟩) = ⟨[.code "x" (some "r")]⟩ := by
    refine hread (by decide) rfl ?_ rfl
    rw [environmentBlocks]
    rfl
  refine ⟨by decide, hbraces, ?_, ?_⟩
  · rw [hbraces]
    decide
  · refine hread (by decide) rfl ?_ rfl
    rw [environmentBlocks]
    rfl

end Interdoc.Latex

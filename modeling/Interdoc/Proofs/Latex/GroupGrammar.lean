import Interdoc.Proofs.Latex.Language
import Mathlib.Order.Bounds.Defs
import Mathlib.Tactic.Linarith

/-!
# The grammar of groups

The depth of a text counts the delimiters in it that no backslash hides: braces (`braceDepth`), or
the brackets that stand outside all braces (`bracketDepth`).  A group ends where the depth of the
text from its opening delimiter on returns to zero for the first time, and there is no group if
there is no such place (`FollowsGrammar`).

Both searches go through the text with numbers of open delimiters.  One lemma for each says what the
search answers in terms of depths (`closeBrace?_answers`, `closeBracket?_answers`), and one that its
numbers are the depth at every place that it comes to (`closeBrace?_reaches`,
`closeBracket?_reaches`).
-/

namespace Interdoc.Latex

/-! ### Depth -/

/-- The characters that no backslash hides.  A backslash hides the next character and is itself not
among them. -/
def unhidden : List Char → List Char
  | [] => []
  | ['\\'] => []
  | '\\' :: _ :: s => unhidden s
  | c :: s => c :: unhidden s

/-- How many more braces are opened in a text than closed. -/
def braceDepth (s : List Char) : Int :=
  (unhidden s).count '\x7b' - (unhidden s).count '\x7d'

/-- How many more brackets are opened than closed in a text before which some braces are open,
brackets inside braces left out. -/
def bracketDepthIn (braces : Nat) (s : List Char) : Int :=
  (exposed braces s).count '[' - (exposed braces s).count ']'

/-- How many more brackets are opened in a text than closed, brackets inside braces left out.  A
closing brace without a partner means nothing. -/
def bracketDepth (s : List Char) : Int :=
  bracketDepthIn 0 s

theorem unhidden_char {c : Char} (h : c ≠ '\\') (s : List Char) :
    unhidden (c :: s) = c :: unhidden s := by
  rw [unhidden]
  · exact fun he _ => h he
  · exact fun _ _ he _ => h he

@[simp] theorem braceDepth_nil : braceDepth [] = 0 := rfl

@[simp] theorem braceDepth_backslash : braceDepth ['\\'] = 0 := rfl

@[simp] theorem braceDepth_escape (c : Char) (s : List Char) :
    braceDepth ('\\' :: c :: s) = braceDepth s := rfl

@[simp] theorem braceDepth_open (s : List Char) : braceDepth ('\x7b' :: s) = braceDepth s + 1 := by
  rw [braceDepth, unhidden_char (by decide), braceDepth]
  simp
  omega

@[simp] theorem braceDepth_close (s : List Char) : braceDepth ('\x7d' :: s) = braceDepth s - 1 := by
  rw [braceDepth, unhidden_char (by decide), braceDepth]
  simp
  omega

theorem braceDepth_char {c : Char} (h : c ≠ '\\') (h' : c ≠ '\x7b') (h'' : c ≠ '\x7d')
    (s : List Char) : braceDepth (c :: s) = braceDepth s := by
  rw [braceDepth, unhidden_char h, List.count_cons_of_ne h', List.count_cons_of_ne h'', braceDepth]

@[simp] theorem bracketDepthIn_nil (braces : Nat) : bracketDepthIn braces [] = 0 := by
  rw [bracketDepthIn, exposed]
  rfl

@[simp] theorem bracketDepthIn_backslash (braces : Nat) : bracketDepthIn braces ['\\'] = 0 := by
  rw [bracketDepthIn, exposed]
  rfl

@[simp] theorem bracketDepthIn_escape (braces : Nat) (c : Char) (s : List Char) :
    bracketDepthIn braces ('\\' :: c :: s) = bracketDepthIn braces s := by
  rw [bracketDepthIn, exposed, bracketDepthIn]

@[simp] theorem bracketDepthIn_openBrace (braces : Nat) (s : List Char) :
    bracketDepthIn braces ('\x7b' :: s) = bracketDepthIn (braces + 1) s := by
  rw [bracketDepthIn, exposed, bracketDepthIn]

@[simp] theorem bracketDepthIn_closeBrace (braces : Nat) (s : List Char) :
    bracketDepthIn braces ('\x7d' :: s) = bracketDepthIn (braces - 1) s := by
  rw [bracketDepthIn, exposed, bracketDepthIn]

@[simp] theorem bracketDepthIn_open (s : List Char) :
    bracketDepthIn 0 ('[' :: s) = bracketDepthIn 0 s + 1 := by
  rw [bracketDepthIn, exposed_char (by decide) (by decide) (by decide), bracketDepthIn]
  simp
  omega

@[simp] theorem bracketDepthIn_close (s : List Char) :
    bracketDepthIn 0 (']' :: s) = bracketDepthIn 0 s - 1 := by
  rw [bracketDepthIn, exposed_char (by decide) (by decide) (by decide), bracketDepthIn]
  simp
  omega

theorem bracketDepthIn_char {c : Char} (h : c ≠ '\\') (h' : c ≠ '\x7b') (h'' : c ≠ '\x7d')
    {braces : Nat} (hb : 0 < braces ∨ (c ≠ '[' ∧ c ≠ ']')) (s : List Char) :
    bracketDepthIn braces (c :: s) = bracketDepthIn braces s := by
  cases braces with
  | zero =>
    obtain ⟨ho, hc⟩ := hb.resolve_left (Nat.lt_irrefl 0)
    rw [bracketDepthIn, exposed_char h h' h'', List.count_cons_of_ne ho, List.count_cons_of_ne hc,
      bracketDepthIn]
  | succ braces => rw [bracketDepthIn, exposed_braced h h' h'', bracketDepthIn]

/-! ### What a search answers -/

/-- An answer to the question where a group ends: where its depth first is zero, with what is before
and behind the delimiter there, or nowhere. -/
def Answers (depth : List Char → Int) (s : List Char) : Option (List Char × List Char) → Prop
  | some (content, rest) =>
    ∃ c, s = content ++ c :: rest ∧ (∀ t, t <+: content → 0 < depth t) ∧ depth (content ++ [c]) = 0
  | none => ∀ t, t <+: s → 0 < depth t

theorem Answers.pos_nil {depth : List Char → Int} {s : List Char}
    {answer : Option (List Char × List Char)} (h : Answers depth s answer) : 0 < depth [] := by
  cases answer with
  | none => exact h [] List.nil_prefix
  | some r =>
    obtain ⟨c, -, hcontent, -⟩ := h
    exact hcontent [] List.nil_prefix

/-- Text in front that does not close the group changes nothing but the depth. -/
theorem Answers.prepend {inner depth : List Char → Int} {s : List Char}
    {answer : Option (List Char × List Char)} (h : Answers inner s answer) (front : List Char)
    (hdepth : ∀ t, depth (front ++ t) = inner t) (hfront : ∀ t, t <+: front → 0 < depth t) :
    Answers depth (front ++ s) (answer.map (prependContent front)) := by
  have hpos : ∀ u : List Char, (∀ t, t <+: u → 0 < inner t) →
      ∀ t, t <+: front ++ u → 0 < depth t := by
    intro u hu t ht
    rcases List.prefix_or_prefix_of_prefix ht (List.prefix_append front u) with ht' | ⟨t', rfl⟩
    · exact hfront t ht'
    · rw [hdepth]
      exact hu t' ((List.prefix_append_right_inj front).mp ht)
  cases answer with
  | none => exact hpos s h
  | some r =>
    obtain ⟨c, rfl, hcontent, hzero⟩ := h
    refine ⟨c, (List.append_assoc ..).symm, hpos r.1 hcontent, ?_⟩
    rw [List.append_assoc, hdepth, hzero]

/-- One character in front that does not close the group. -/
theorem Answers.prepend_char {inner depth : List Char → Int} {s : List Char} {c : Char}
    {answer : Option (List Char × List Char)} (h : Answers inner s answer)
    (hdepth : ∀ t, depth (c :: t) = inner t) (hnil : 0 < depth []) :
    Answers depth (c :: s) (answer.map (consContent c)) := by
  refine h.prepend [c] hdepth fun t ht => ?_
  rcases List.prefix_cons_iff.mp ht with rfl | ⟨t', rfl, ht'⟩
  · exact hnil
  · rw [List.prefix_nil.mp ht', hdepth]
    exact h.pos_nil

/-- A hidden character in front. -/
theorem Answers.prepend_escape {depth : List Char → Int} {s : List Char} {c : Char}
    {answer : Option (List Char × List Char)} (h : Answers depth s answer)
    (hdepth : ∀ t, depth ('\\' :: c :: t) = depth t) (hslash : depth ['\\'] = depth []) :
    Answers depth ('\\' :: c :: s) (answer.map (consContent '\\' ∘ consContent c)) := by
  refine h.prepend ['\\', c] hdepth fun t ht => ?_
  rcases List.prefix_cons_iff.mp ht with rfl | ⟨t', rfl, ht'⟩
  · exact h.pos_nil
  rcases List.prefix_cons_iff.mp ht' with rfl | ⟨t'', rfl, ht''⟩
  · rw [hslash]
    exact h.pos_nil
  · rw [List.prefix_nil.mp ht'', hdepth]
    exact h.pos_nil

/-- The end of the text before the group is closed. -/
theorem answers_none_nil {depth : List Char → Int} (hnil : 0 < depth []) :
    Answers depth [] none := by
  intro t ht
  rwa [List.prefix_nil.mp ht]

/-- A backslash at the end of the text. -/
theorem answers_none_backslash {depth : List Char → Int} (hnil : 0 < depth [])
    (hslash : depth ['\\'] = depth []) : Answers depth ['\\'] none := by
  intro t ht
  rcases List.prefix_cons_iff.mp ht with rfl | ⟨t', rfl, ht'⟩
  · exact hnil
  · rwa [List.prefix_nil.mp ht', hslash]

/-- The delimiter that closes the group. -/
theorem answers_some_nil {depth : List Char → Int} {c : Char} (hnil : 0 < depth [])
    (hc : depth [c] = 0) (s : List Char) : Answers depth (c :: s) (some ([], s)) := by
  refine ⟨c, rfl, fun t ht => ?_, hc⟩
  rwa [List.prefix_nil.mp ht]

/-- **The end of a braced group** is where the braces are closed that are open, one more than the
number that the search has. -/
theorem closeBrace?_answers (depth : Nat) (s : List Char) :
    Answers (fun t => depth + 1 + braceDepth t) s (closeBrace? depth s) := by
  have hpos : ∀ depth : Nat, 0 < (depth : Int) + 1 + braceDepth [] := by
    intro depth
    rw [braceDepth_nil]
    omega
  fun_induction closeBrace? depth s with
  | case1 depth => exact answers_none_nil (hpos depth)
  | case2 depth => exact answers_none_backslash (hpos depth) (by simp)
  | case3 depth c s ih => exact ih.prepend_escape (fun t => by simp) (by simp)
  | case4 depth s ih =>
    refine ih.prepend_char (fun t => ?_) (hpos depth)
    rw [braceDepth_open]
    omega
  | case5 s => exact answers_some_nil (hpos 0) rfl s
  | case6 depth s ih =>
    refine ih.prepend_char (fun t => ?_) (hpos (depth + 1))
    rw [braceDepth_close]
    omega
  | case7 depth c s h₁ h₂ h₃ h₄ h₅ ih =>
    refine ih.prepend_char (fun t => ?_) (hpos depth)
    have hclose : c ≠ '\x7d' := by
      cases depth with
      | zero => exact h₄ rfl
      | succ depth => exact h₅ depth rfl
    rw [braceDepth_char (ne_backslash h₁ h₂) h₃ hclose]

/-- **The end of a bracketed group** is where the brackets outside braces are closed that are open,
one more than the number that the search has. -/
theorem closeBracket?_answers (depth braces : Nat) (s : List Char) :
    Answers (fun t => depth + 1 + bracketDepthIn braces t) s (closeBracket? depth braces s) := by
  have hpos : ∀ depth braces : Nat, 0 < (depth : Int) + 1 + bracketDepthIn braces [] := by
    intro depth braces
    rw [bracketDepthIn_nil]
    omega
  fun_induction closeBracket? depth braces s with
  | case1 depth braces => exact answers_none_nil (hpos depth braces)
  | case2 depth braces => exact answers_none_backslash (hpos depth braces) (by simp)
  | case3 depth braces c s ih => exact ih.prepend_escape (fun t => by simp) (by simp)
  | case4 depth braces s ih =>
    refine ih.prepend_char (fun t => ?_) (hpos depth braces)
    rw [bracketDepthIn_openBrace]
  | case5 depth braces s ih =>
    refine ih.prepend_char (fun t => ?_) (hpos depth braces)
    rw [bracketDepthIn_closeBrace]
  | case6 depth s ih =>
    refine ih.prepend_char (fun t => ?_) (hpos depth 0)
    rw [bracketDepthIn_open]
    omega
  | case7 s => exact answers_some_nil (hpos 0 0) rfl s
  | case8 depth s ih =>
    refine ih.prepend_char (fun t => ?_) (hpos (depth + 1) 0)
    rw [bracketDepthIn_close]
    omega
  | case9 depth braces c s h₁ h₂ h₃ h₄ h₅ h₆ h₇ ih =>
    refine ih.prepend_char (fun t => ?_) (hpos depth braces)
    -- a character that the search passes over is hidden by braces or is no bracket
    have hother : 0 < braces ∨ (c ≠ '[' ∧ c ≠ ']') := by
      rcases Nat.eq_zero_or_pos braces with rfl | hbraces
      · refine .inr ⟨h₅ rfl, ?_⟩
        cases depth with
        | zero => exact h₆ rfl rfl
        | succ depth => exact h₇ depth rfl rfl
      · exact .inl hbraces
    rw [bracketDepthIn_char (ne_backslash h₁ h₂) h₃ h₄ hother]

/-! ### What a search has open -/

/-- Whether no backslash at the end of a text hides what comes behind the text. -/
def isWhole : List Char → Bool
  | [] => true
  | ['\\'] => false
  | '\\' :: _ :: s => isWhole s
  | _ :: s => isWhole s

/-- The braces that are open behind a text, if some are open before it.  A closing brace that has
none to close is passed over. -/
def openBraces (braces : Nat) (s : List Char) : Nat :=
  (unhidden s).foldl
    (fun n c => if c = '\x7b' then n + 1 else if c = '\x7d' then n - 1 else n) braces

theorem openBraces_char {c : Char} (h : c ≠ '\\') (braces : Nat) (s : List Char) :
    openBraces braces (c :: s) =
      openBraces
        (if c = '\x7b' then braces + 1 else if c = '\x7d' then braces - 1 else braces) s := by
  rw [openBraces, unhidden_char h, List.foldl_cons, openBraces]

/-- A search that has gone through a text goes on with what follows the text as another search. -/
def GoesOn (search : List Char → Option (List Char × List Char)) (s : List Char)
    (later : List Char → Option (List Char × List Char)) : Prop :=
  ∀ rest, search (s ++ rest) = (later rest).map (prependContent s)

section

variable {search inner later : List Char → Option (List Char × List Char)} {s : List Char}
  {c : Char}

theorem goesOn_nil (search : List Char → Option (List Char × List Char)) :
    GoesOn search [] search := by
  intro rest
  rw [List.nil_append]
  cases search rest <;> rfl

theorem GoesOn.cons (h : GoesOn inner s later)
    (hstep : ∀ u, search (c :: u) = (inner u).map (consContent c)) :
    GoesOn search (c :: s) later := by
  intro rest
  rw [List.cons_append, hstep, h rest, Option.map_map]
  rfl

theorem GoesOn.escape (h : GoesOn search s later)
    (hstep : ∀ u, search ('\\' :: c :: u) = (search u).map (consContent '\\' ∘ consContent c)) :
    GoesOn search ('\\' :: c :: s) later := by
  intro rest
  rw [List.cons_append, List.cons_append, hstep, h rest, Option.map_map]
  rfl

/-- What does not hold of any front of a text does not hold of those with a first character. -/
theorem ne_zero_of_cons {outer depth : List Char → Int}
    (h : ∀ t, t <+: c :: s → outer t ≠ 0) (hdepth : ∀ t, outer (c :: t) = depth t) :
    ∀ t, t <+: s → depth t ≠ 0 := by
  intro t ht
  rw [← hdepth]
  exact h (c :: t) (List.cons_prefix_cons.mpr ⟨rfl, ht⟩)

end

/-- **Where a search for a brace comes to**, it has as many braces open as the depth says. -/
theorem closeBrace?_reaches {depth : Nat} {s : List Char} (hwhole : isWhole s = true)
    (h : ∀ t, t <+: s → (depth : Int) + 1 + braceDepth t ≠ 0) :
    ∃ d : Nat, (depth : Int) + 1 + braceDepth s = d + 1 ∧
      GoesOn (closeBrace? depth) s (closeBrace? d) := by
  fun_induction isWhole s generalizing depth with
  | case1 => exact ⟨depth, by rw [braceDepth_nil, add_zero], goesOn_nil _⟩
  | case2 => cases hwhole
  | case3 c s ih =>
    obtain ⟨d, hd, hlater⟩ := ih hwhole fun t ht => h ('\\' :: c :: t) (by simpa using ht)
    exact ⟨d, hd, hlater.escape fun u => by rw [closeBrace?]⟩
  | case4 c s h₁ h₂ ih =>
    have hc := ne_backslash h₁ h₂
    -- the number after the character, and the depths seen from there
    have hnext : ∀ next : Nat,
        (∀ t, (depth : Int) + 1 + braceDepth (c :: t) = next + 1 + braceDepth t) →
        (∀ u, closeBrace? depth (c :: u) = (closeBrace? next u).map (consContent c)) →
        ∃ d : Nat, (depth : Int) + 1 + braceDepth (c :: s) = d + 1 ∧
          GoesOn (closeBrace? depth) (c :: s) (closeBrace? d) := by
      intro next hdepth hstep
      obtain ⟨d, hd, hlater⟩ := ih hwhole (ne_zero_of_cons h hdepth)
      exact ⟨d, (hdepth s).trans hd, hlater.cons hstep⟩
    by_cases ho : c = '\x7b'
    · subst ho
      refine hnext (depth + 1) (fun t => ?_) fun u => by rw [closeBrace?]
      rw [braceDepth_open]
      omega
    by_cases hb : c = '\x7d'
    · subst hb
      cases depth with
      | zero => exact absurd rfl (h ['\x7d'] (by simp))
      | succ depth =>
        refine hnext depth (fun t => ?_) fun u => by rw [closeBrace?]
        rw [braceDepth_close]
        omega
    · refine hnext depth (fun t => ?_) (closeBrace?_char hc ho hb depth)
      rw [braceDepth_char hc ho hb]

/-- **Where a search for a bracket comes to**, it has as many brackets open as the depth says, and
as many braces as there are open. -/
theorem closeBracket?_reaches {depth braces : Nat} {s : List Char} (hwhole : isWhole s = true)
    (h : ∀ t, t <+: s → (depth : Int) + 1 + bracketDepthIn braces t ≠ 0) :
    ∃ d : Nat, (depth : Int) + 1 + bracketDepthIn braces s = d + 1 ∧
      GoesOn (closeBracket? depth braces) s (closeBracket? d (openBraces braces s)) := by
  fun_induction isWhole s generalizing depth braces with
  | case1 => exact ⟨depth, by rw [bracketDepthIn_nil, add_zero], goesOn_nil _⟩
  | case2 => cases hwhole
  | case3 c s ih =>
    obtain ⟨d, hd, hlater⟩ := ih hwhole fun t ht => by
      simpa using h ('\\' :: c :: t) (by simpa using ht)
    refine ⟨d, by rwa [bracketDepthIn_escape], ?_⟩
    exact hlater.escape fun u => by rw [closeBracket?]
  | case4 c s h₁ h₂ ih =>
    have hc := ne_backslash h₁ h₂
    -- one step of the search, and then what the rest does from the counts behind it
    have hnext : ∀ next braces' : Nat,
        (∀ t, (depth : Int) + 1 + bracketDepthIn braces (c :: t)
          = next + 1 + bracketDepthIn braces' t) →
        (∀ u, closeBracket? depth braces (c :: u)
          = (closeBracket? next braces' u).map (consContent c)) →
        openBraces braces (c :: s) = openBraces braces' s →
        ∃ d : Nat, (depth : Int) + 1 + bracketDepthIn braces (c :: s) = d + 1 ∧
          GoesOn (closeBracket? depth braces) (c :: s)
            (closeBracket? d (openBraces braces (c :: s))) := by
      intro next braces' hdepth hstep hbraces
      obtain ⟨d, hd, hlater⟩ := ih hwhole (ne_zero_of_cons h hdepth)
      rw [hbraces]
      exact ⟨d, (hdepth s).trans hd, hlater.cons hstep⟩
    -- braces count for themselves, and brackets only outside of braces
    by_cases ho : c = '\x7b'
    · subst ho
      refine hnext depth (braces + 1) (fun t => ?_) (fun u => by rw [closeBracket?]) ?_
      · rw [bracketDepthIn_openBrace]
      · rw [openBraces_char hc, if_pos rfl]
    by_cases hb : c = '\x7d'
    · subst hb
      refine hnext depth (braces - 1) (fun t => ?_) (fun u => by rw [closeBracket?]) ?_
      · rw [bracketDepthIn_closeBrace]
      · rw [openBraces_char hc, if_neg ho, if_pos rfl]
    have hsame : openBraces braces (c :: s) = openBraces braces s := by
      rw [openBraces_char hc, if_neg ho, if_neg hb]
    by_cases hother : 0 < braces ∨ (c ≠ '[' ∧ c ≠ ']')
    · refine hnext depth braces (fun t => ?_) (closeBracket?_char hc ho hb hother depth) hsame
      rw [bracketDepthIn_char hc ho hb hother]
    · -- a bracket outside braces
      rw [not_or, not_and_or, not_not, not_not] at hother
      obtain rfl : braces = 0 := by omega
      rcases hother.2 with rfl | rfl
      · refine hnext (depth + 1) 0 (fun t => ?_) (fun u => by rw [closeBracket?]) hsame
        rw [bracketDepthIn_open]
        omega
      · cases depth with
        | zero => exact absurd (by simp) (h [']'] (by simp))
        | succ depth =>
          refine hnext depth 0 (fun t => ?_) (fun u => by rw [closeBracket?]) hsame
          rw [bracketDepthIn_close]
          omega

/-! ### Positions -/

/-- A group that begins at a position of a text ends at another: there the depth from the beginning
on is zero for the first time. -/
def EndsAt (depth : List Char → Int) (s : List Char) (start next : Nat) : Prop :=
  IsLeast {n | start < n ∧ n ≤ s.length ∧ depth (s.extract start n) = 0} next

/-- A reader of groups follows a grammar: a group begins with the opening delimiter and ends where
the depth says, its content is what is strictly between, and there is none if it has no end. -/
structure FollowsGrammar (read : List Char → Option (List Char × List Char)) (opening : Char)
    (depth : List Char → Int) : Prop where
  eq_some_iff : ∀ s start content rest, read (s.drop start) = some (content, rest) ↔
    s[start]? = some opening ∧ ∃ next, EndsAt depth s start next ∧
      content = s.extract (start + 1) (next - 1) ∧ rest = s.drop next
  eq_none_iff : ∀ s start, read (s.drop start) = none ↔
    ¬ (s[start]? = some opening ∧ ∃ next, EndsAt depth s start next)

section

variable {read search : List Char → Option (List Char × List Char)} {opening : Char}
  {depth : List Char → Int} {s g content rest : List Char} {start next : Nat}

theorem drop_eq_cons_iff : (∃ g, s.drop start = opening :: g) ↔ s[start]? = some opening := by
  rw [← List.head?_drop]
  cases s.drop start <;> simp

theorem extract_of_drop_eq_cons (h : s.drop start = opening :: g) (k : Nat) :
    s.extract start (start + 1 + k) = opening :: g.take k := by
  rw [List.extract_eq_take_drop, h, show start + 1 + k - start = k + 1 by omega,
    List.take_succ_cons]

/-- Positions behind the beginning, counted from there. -/
theorem endsAt_iff (h : s.drop start = opening :: g) :
    EndsAt depth s start next ↔ ∃ k, next = start + 1 + k ∧ k ≤ g.length ∧
      depth (opening :: g.take k) = 0 ∧ ∀ j < k, depth (opening :: g.take j) ≠ 0 := by
  have hlength : s.length = start + 1 + g.length := by
    have := congrArg List.length h
    rw [List.length_drop, List.length_cons] at this
    omega
  -- the depths are those of the fronts of the group, counted from its opening
  constructor
  · rintro ⟨⟨hlt, hle, hzero⟩, hleast⟩
    obtain ⟨k, rfl⟩ := Nat.exists_eq_add_of_le hlt
    rw [extract_of_drop_eq_cons h] at hzero
    refine ⟨k, rfl, by omega, hzero, fun j hj hj' => ?_⟩
    have := hleast ⟨by omega, by omega, (extract_of_drop_eq_cons h j).symm ▸ hj'⟩
    omega
  · rintro ⟨k, rfl, hle, hzero, hleast⟩
    refine ⟨⟨by omega, by omega, by rwa [extract_of_drop_eq_cons h]⟩, ?_⟩
    rintro n ⟨hlt, -, hn⟩
    obtain ⟨j, rfl⟩ := Nat.exists_eq_add_of_le hlt
    rw [Nat.succ_eq_add_one, extract_of_drop_eq_cons h] at hn
    have := mt (hleast j) (not_not.mpr hn)
    omega

/-- An answer that finds the end gives the position of the end and what is on both sides of it. -/
theorem Answers.endsAt (h : Answers (fun t => depth (opening :: t)) g (some (content, rest)))
    (hg : s.drop start = opening :: g) :
    ∃ next, EndsAt depth s start next ∧ content = s.extract (start + 1) (next - 1) ∧
      rest = s.drop next := by
  obtain ⟨c, rfl, hpos, hzero⟩ := h
  have hsplit : s.drop (start + 1) = content ++ c :: rest := by
    rw [← List.drop_drop, hg, List.drop_succ_cons, List.drop_zero]
  refine ⟨start + 1 + (content.length + 1), (endsAt_iff hg).mpr ⟨_, rfl, by simp, ?_, ?_⟩, ?_, ?_⟩
  · rwa [List.append_cons, List.take_left' (by simp)]
  · intro j hj
    have hprefix : (content ++ c :: rest).take j <+: content := by
      rw [List.take_append_of_le_length (by omega)]
      exact List.take_prefix j content
    exact (hpos _ hprefix).ne'
  · rw [List.extract_eq_take_drop, hsplit, show start + 1 + (content.length + 1) - 1 - (start + 1)
      = content.length by omega, List.take_left]
  · rw [← List.drop_drop, hsplit, ← List.drop_drop, List.drop_left]
    rfl

/-- An answer that finds no end says that there is none. -/
theorem Answers.not_endsAt (h : Answers (fun t => depth (opening :: t)) g none)
    (hg : s.drop start = opening :: g) (next : Nat) : ¬ EndsAt depth s start next := by
  rw [endsAt_iff hg]
  rintro ⟨k, -, -, hzero, -⟩
  exact (h _ (List.take_prefix k g)).ne' hzero

/-- **A reader follows the grammar** if it searches for the end behind an opening delimiter, and the
search answers for the depth. -/
theorem followsGrammar_of_answers (search : List Char → Option (List Char × List Char))
    (hopen : ∀ g, read (opening :: g) = search g)
    (hother : ∀ s, s.head? ≠ some opening → read s = none)
    (hanswers : ∀ g, Answers (fun t => depth (opening :: t)) g (search g)) :
    FollowsGrammar read opening depth := by
  -- without the delimiter there is no group, and behind it the search decides
  have hdecide : ∀ s start, (read (s.drop start) = none ∧
        ¬ (s[start]? = some opening ∧ ∃ next, EndsAt depth s start next)) ∨
      ∃ content rest, read (s.drop start) = some (content, rest) ∧ s[start]? = some opening ∧
        ∃ next, EndsAt depth s start next ∧ content = s.extract (start + 1) (next - 1) ∧
          rest = s.drop next := by
    intro s start
    by_cases hstart : s[start]? = some opening
    · obtain ⟨g, hg⟩ := drop_eq_cons_iff.mpr hstart
      have hg' := hanswers g
      rw [hg, hopen]
      cases hsearch : search g with
      | none =>
        rw [hsearch] at hg'
        exact .inl ⟨rfl, fun ⟨_, next, hnext⟩ => hg'.not_endsAt hg next hnext⟩
      | some r =>
        rw [hsearch] at hg'
        exact .inr ⟨r.1, r.2, rfl, hstart, hg'.endsAt hg⟩
    · refine .inl ⟨hother _ ?_, fun h => hstart h.1⟩
      rwa [List.head?_drop]
  constructor
  · intro s start content rest
    rcases hdecide s start with
      ⟨hnone, hno⟩ | ⟨content', rest', hread, hstart, next, hends, hbetween⟩
    · rw [hnone]
      exact iff_of_false nofun fun ⟨hstart, next, hends, _⟩ => hno ⟨hstart, next, hends⟩
    · rw [hread, Option.some_inj, Prod.ext_iff]
      constructor
      · rintro ⟨rfl, rfl⟩
        exact ⟨hstart, next, hends, hbetween⟩
      · rintro ⟨-, next', hends', hbetween'⟩
        obtain rfl := hends.unique hends'
        exact ⟨hbetween.1.trans hbetween'.1.symm, hbetween.2.trans hbetween'.2.symm⟩
  · intro s start
    rcases hdecide s start with ⟨hnone, hno⟩ | ⟨content', rest', hread, hstart, next, hends, -⟩
    · exact iff_of_true hnone hno
    · rw [hread]
      exact iff_of_false nofun fun h => h ⟨hstart, next, hends⟩

end

/-! ### Groups -/

/-- Behind the opening delimiter one group is open, and the search counts the further ones. -/
theorem braceDepth_group (s : List Char) :
    braceDepth ('\x7b' :: s) = ((0 : Nat) : Int) + 1 + braceDepth s := by
  rw [braceDepth_open]
  omega

theorem bracketDepth_group (s : List Char) :
    bracketDepth ('[' :: s) = ((0 : Nat) : Int) + 1 + bracketDepthIn 0 s := by
  rw [bracketDepth, bracketDepthIn_open]
  omega

theorem followsGrammar_braced? : FollowsGrammar braced? '\x7b' braceDepth := by
  refine followsGrammar_of_answers (closeBrace? 0) (fun g => rfl) (fun s hs => ?_) ?_
  · unfold braced?
    split
    · exact absurd rfl hs
    · rfl
  · simp only [braceDepth_group]
    exact closeBrace?_answers 0

theorem followsGrammar_bracketed? : FollowsGrammar bracketed? '[' bracketDepth := by
  refine followsGrammar_of_answers (closeBracket? 0 0) (fun g => rfl) (fun s hs => ?_) ?_
  · unfold bracketed?
    split
    · exact absurd rfl hs
    · rfl
  · simp only [bracketDepth_group]
    exact closeBracket?_answers 0 0

/-- **Groups are those of the grammar.**  From any position of any text a braced group is read
exactly if an opening brace stands there and there is a first position behind it at which all braces
are closed; what is read is the text strictly between, and what follows is the rest.  Bracketed
groups are the same with the brackets outside braces.  Up to the end of the group, and all along the
text if there is none, the search has as many delimiters open as the depth says, one at least, and
for a bracketed group as many braces as have not been closed: no number ever falls below zero. -/
theorem groups_follow_grammar :
    FollowsGrammar braced? '\x7b' braceDepth ∧
    FollowsGrammar bracketed? '[' bracketDepth ∧
    (∀ s, isWhole s = true → (∀ t, t <+: s → braceDepth ('\x7b' :: t) ≠ 0) →
      ∃ d : Nat, braceDepth ('\x7b' :: s) = d + 1 ∧ GoesOn (closeBrace? 0) s (closeBrace? d)) ∧
    ∀ s, isWhole s = true → (∀ t, t <+: s → bracketDepth ('[' :: t) ≠ 0) →
      ∃ d : Nat, bracketDepth ('[' :: s) = d + 1 ∧
        GoesOn (closeBracket? 0 0) s (closeBracket? d (openBraces 0 s)) := by
  refine ⟨followsGrammar_braced?, followsGrammar_bracketed?, fun s hwhole h => ?_,
    fun s hwhole h => ?_⟩
  · simp only [braceDepth_group] at h ⊢
    exact closeBrace?_reaches hwhole h
  · simp only [bracketDepth_group] at h ⊢
    exact closeBracket?_reaches hwhole h

-- neither the bracket in braces nor the one behind the backslash ends the group
example : bracketed? "[a\x7b]\x7d\\]b]c".toList = some ("a\x7b]\x7d\\]b".toList, ['c']) := by
  decide

end Interdoc.Latex

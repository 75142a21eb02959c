import Interdoc.Latex.Printer
import Interdoc.Latex.Tabular
import Interdoc.Proofs.Text.Trim
import Mathlib.Data.List.Infix

/-!
# Text that no scanner stops at

Before a span of source is read as inlines, scanners look for the end of a group, a separator, a
comment, the end of a table row or the marker of an environment.  None of them stops inside a text
that is `Inert`: its braces are balanced, its special characters stand behind backslashes, and no
command in it means anything to a table or an environment.

Each scanner has one lemma here, which says that it passes over an inert text whatever follows
(`closeBrace?_append`, `closeBracket?_append`, `splitTopFrom_append`, `stripComment_append`,
`tablePieces_append`, `Inert.unmarked_append`).  Printed inlines are inert
(`inert_printInlines`).
-/

namespace Interdoc.Latex

/-! ### Inert text -/

/-- A character that stands for itself wherever it is. -/
def isInertChar (c : Char) : Bool :=
  c != '\\' && c != '\x7b' && c != '\x7d' && c != '&' && c != '%' && c != '\n' && c != '\r'

/-- What follows a backslash is neither another backslash nor the beginning of a rule command or of
a marker, whatever comes after it. -/
def InertCommand : List Char → Prop
  | [] => False
  | c :: s =>
    c ∉ ['\\', 'b', 'e', '\n', '\r'] ∧ ∀ t, rule? (c :: (s ++ t)) = none

/-- A text that scanners pass over. -/
inductive Inert : List Char → Prop where
  | nil : Inert []
  | char {c : Char} {s : List Char} : isInertChar c = true → Inert s → Inert (c :: s)
  /-- A backslash hides the character after it. -/
  | escape {c : Char} {s : List Char} : InertCommand (c :: s) → Inert s → Inert ('\\' :: c :: s)
  | group {body s : List Char} :
    Inert body → Inert s → Inert ('\x7b' :: (body ++ '\x7d' :: s))

theorem ne_of_isInertChar {c : Char} (h : isInertChar c = true) :
    c ≠ '\\' ∧ c ≠ '\x7b' ∧ c ≠ '\x7d' ∧ c ≠ '&' ∧ c ≠ '%' ∧ c ≠ '\n' ∧ c ≠ '\r' := by
  simpa [isInertChar, and_assoc] using h

theorem InertCommand.append {s : List Char} (h : InertCommand s) (t : List Char) :
    InertCommand (s ++ t) := by
  cases s with
  | nil => exact absurd h (by simp [InertCommand])
  | cons c s =>
    refine ⟨h.1, fun u => ?_⟩
    have hs := h.2 (t ++ u)
    rwa [← List.append_assoc] at hs

theorem Inert.append {s t : List Char} (hs : Inert s) (ht : Inert t) : Inert (s ++ t) := by
  induction hs with
  | nil => exact ht
  | char hc _ ih => exact .char hc ih
  | escape hc _ ih => exact .escape (hc.append t) ih
  | group hb _ _ ih =>
    rw [List.cons_append, List.append_assoc, List.cons_append]
    exact .group hb ih

theorem Inert.of_forall {s : List Char} (h : ∀ c ∈ s, isInertChar c = true) : Inert s := by
  induction s with
  | nil => exact .nil
  | cons c s ih =>
    rw [List.forall_mem_cons] at h
    exact .char h.1 (ih h.2)

/-- An inert text is part of one line. -/
theorem Inert.not_mem {s : List Char} (h : Inert s) : '\n' ∉ s ∧ '\r' ∉ s := by
  induction h with
  | nil => simp
  | char hc _ ih =>
    have := ne_of_isInertChar hc
    simp [ih, this.2.2.2.2.2.1.symm, this.2.2.2.2.2.2.symm]
  | @escape c s hc _ ih =>
    have hn : '\n' ≠ c := by
      rintro rfl
      exact hc.1 (by simp)
    have hr : '\r' ≠ c := by
      rintro rfl
      exact hc.1 (by simp)
    simp [ih, hn, hr]
  | group _ _ ih ih' => simp [ih, ih']

/-! ### Groups -/

/-- A text put in front of the content of a group. -/
def prependContent (s : List Char) (r : List Char × List Char) : List Char × List Char :=
  (s ++ r.1, r.2)

theorem closeBrace?_char {c : Char} (h : c ≠ '\\') (h' : c ≠ '\x7b') (h'' : c ≠ '\x7d')
    (depth : Nat) (s : List Char) :
    closeBrace? depth (c :: s) = (closeBrace? depth s).map (consContent c) := by
  rw [closeBrace?]
  · exact fun he _ => h he
  · exact fun _ _ he _ => h he
  · exact h'
  · exact fun _ he => h'' he
  · exact fun _ _ he => h'' he

/-- **A search for a closing brace** passes over inert text. -/
theorem closeBrace?_append {s : List Char} (h : Inert s) (depth : Nat) (t : List Char) :
    closeBrace? depth (s ++ t) = (closeBrace? depth t).map (prependContent s) := by
  induction h generalizing depth t with
  | nil =>
    rw [List.nil_append]
    cases closeBrace? depth t <;> rfl
  | char hc _ ih =>
    obtain ⟨h₁, h₂, h₃, -⟩ := ne_of_isInertChar hc
    rw [List.cons_append, closeBrace?_char h₁ h₂ h₃, ih, Option.map_map]
    rfl
  | escape _ _ ih =>
    rw [List.cons_append, List.cons_append, closeBrace?, ih, Option.map_map]
    rfl
  | group _ _ ih ih' =>
    -- the brace at the end of the group closes the one at its beginning
    rw [List.cons_append, List.append_assoc, List.cons_append, closeBrace?, ih, closeBrace?, ih',
      Option.map_map, Option.map_map, Option.map_map]
    congr 1
    funext r
    simp [prependContent, consContent]

/-- The group around an inert text. -/
theorem braced?_append {s : List Char} (h : Inert s) (t : List Char) :
    braced? ('\x7b' :: (s ++ '\x7d' :: t)) = some (s, t) := by
  rw [braced?, closeBrace?_append h, closeBrace?, Option.map_some, prependContent,
    List.append_nil]

theorem closeBracket?_char {c : Char} (h : c ≠ '\\') (h' : c ≠ '\x7b') (h'' : c ≠ '\x7d')
    {braces : Nat} (hb : 0 < braces ∨ (c ≠ '[' ∧ c ≠ ']')) (depth : Nat) (s : List Char) :
    closeBracket? depth braces (c :: s) = (closeBracket? depth braces s).map (consContent c) := by
  rw [closeBracket?]
  · exact fun he _ => h he
  · exact fun _ _ he _ => h he
  · exact h'
  · exact h''
  · exact fun hz he => hb.elim (by omega) fun hc => hc.1 he
  · exact fun _ hz he => hb.elim (by omega) fun hc => hc.2 he
  · exact fun _ _ hz he => hb.elim (by omega) fun hc => hc.2 he

/-- A search for a closing bracket passes over characters that mean nothing to it. -/
theorem closeBracket?_append_of_forall {s : List Char}
    (h : ∀ c ∈ s, c ∉ ['\\', '\x7b', '\x7d', '[', ']']) (depth braces : Nat) (t : List Char) :
    closeBracket? depth braces (s ++ t)
      = (closeBracket? depth braces t).map (prependContent s) := by
  induction s with
  | nil =>
    rw [List.nil_append]
    cases closeBracket? depth braces t <;> rfl
  | cons c s ih =>
    rw [List.forall_mem_cons] at h
    have hc := h.1
    simp only [List.mem_cons, not_or] at hc
    rw [List.cons_append, closeBracket?_char hc.1 hc.2.1 hc.2.2.1 (.inr ⟨hc.2.2.2.1, hc.2.2.2.2.1⟩),
      ih h.2, Option.map_map]
    rfl

/-- **A search for a closing bracket** passes over inert text inside braces. -/
theorem closeBracket?_append {s : List Char} (h : Inert s) (depth braces : Nat) (t : List Char) :
    closeBracket? depth (braces + 1) (s ++ t)
      = (closeBracket? depth (braces + 1) t).map (prependContent s) := by
  induction h generalizing braces t with
  | nil =>
    rw [List.nil_append]
    cases closeBracket? depth (braces + 1) t <;> rfl
  | char hc _ ih =>
    obtain ⟨h₁, h₂, h₃, -⟩ := ne_of_isInertChar hc
    rw [List.cons_append, closeBracket?_char h₁ h₂ h₃ (.inl (Nat.succ_pos braces)), ih,
      Option.map_map]
    rfl
  | escape _ _ ih =>
    rw [List.cons_append, List.cons_append, closeBracket?, ih, Option.map_map]
    rfl
  | group _ _ ih ih' =>
    -- inside the group one more brace is open, so the hypothesis is used for another count
    rw [List.cons_append, List.append_assoc, List.cons_append, closeBracket?, ih, closeBracket?,
      Nat.add_sub_cancel, ih', Option.map_map, Option.map_map, Option.map_map]
    congr 1
    funext r
    simp [prependContent, consContent]

/-! ### Separators -/

theorem splitTopFrom_char {sep c : Char} (h : c ≠ '\\') (h' : c ≠ '\x7b') (h'' : c ≠ '\x7d')
    {depth : Nat} (hs : c ≠ sep ∨ 0 < depth) (s : List Char) :
    splitTopFrom sep depth (c :: s) = consPiece c (splitTopFrom sep depth s) := by
  have hn : ¬ (decide (c = sep) && decide (depth = 0)) = true := by
    intro hb
    rw [Bool.and_eq_true, decide_eq_true_eq, decide_eq_true_eq] at hb
    rcases hs with hs | hs
    · exact hs hb.1
    · omega
  rw [splitTopFrom, if_neg hn]
  · exact fun he _ => h he
  · exact fun _ _ he _ => h he
  · exact h'
  · exact h''

/-- A cut leaves characters whole that mean nothing to it. -/
theorem splitTopFrom_append_of_forall {sep : Char} {s : List Char}
    (h : ∀ c ∈ s, c ∉ ['\\', '\x7b', '\x7d', sep]) (depth : Nat) (t : List Char) :
    splitTopFrom sep depth (s ++ t) = s.foldr consPiece (splitTopFrom sep depth t) := by
  induction s with
  | nil => rfl
  | cons c s ih =>
    rw [List.forall_mem_cons] at h
    have hc := h.1
    simp only [List.mem_cons, not_or] at hc
    rw [List.cons_append, splitTopFrom_char hc.1 hc.2.1 hc.2.2.1 (.inl hc.2.2.2.1), ih h.2,
      List.foldr_cons]

/-- **A cut at ampersands** leaves inert text whole, and so does a cut at any separator inside
braces. -/
theorem splitTopFrom_append {s : List Char} (h : Inert s) {sep : Char} {depth : Nat}
    (hs : sep = '&' ∨ 0 < depth) (t : List Char) :
    splitTopFrom sep depth (s ++ t) = s.foldr consPiece (splitTopFrom sep depth t) := by
  induction h generalizing depth t with
  | nil => rfl
  | @char c s hc _ ih =>
    obtain ⟨h₁, h₂, h₃, h₄, -⟩ := ne_of_isInertChar hc
    have hcs : c ≠ sep ∨ 0 < depth := by
      rcases hs with rfl | hs
      · exact .inl h₄
      · exact .inr hs
    rw [List.cons_append, splitTopFrom_char h₁ h₂ h₃ hcs, ih hs, List.foldr_cons]
  | escape _ _ ih =>
    rw [List.cons_append, List.cons_append, splitTopFrom, ih hs, List.foldr_cons, List.foldr_cons]
  | group _ _ ih ih' =>
    -- inside the group every separator is hidden, behind it only if it was before
    rw [List.cons_append, List.append_assoc, List.cons_append, splitTopFrom,
      ih (.inr (Nat.succ_pos depth)), splitTopFrom, Nat.succ_sub_one, ih' hs, List.foldr_cons,
      List.foldr_append, List.foldr_cons]

theorem splitTopFrom_ne_nil (sep : Char) (depth : Nat) (s : List Char) :
    splitTopFrom sep depth s ≠ [] := by
  have hcons : ∀ (c : Char) (pieces : List (List Char)), consPiece c pieces ≠ [] := by
    intro c pieces
    cases pieces <;> exact List.cons_ne_nil _ _
  fun_cases splitTopFrom sep depth s <;>
    first
    | exact hcons _ _
    | exact List.cons_ne_nil _ _

theorem foldr_consPiece (s piece : List Char) (rest : List (List Char)) :
    s.foldr consPiece (piece :: rest) = (s ++ piece) :: rest := by
  induction s with
  | nil => rfl
  | cons c s ih => rw [List.foldr_cons, ih, consPiece, List.cons_append]

/-! ### Comments -/

/-- A character that no case for a backslash takes is none. -/
theorem ne_backslash {c : Char} {s : List Char} (h : c = '\\' → s = [] → False)
    (h' : ∀ d t, c = '\\' → s = d :: t → False) : c ≠ '\\' := by
  intro hc
  cases s with
  | nil => exact h hc rfl
  | cons d t => exact h' d t hc rfl

theorem stripComment_char {c : Char} (h : c ≠ '\\') (h' : c ≠ '%') (s : List Char) :
    stripComment (c :: s) = c :: stripComment s := by
  rw [stripComment]
  · exact fun he _ => h he
  · exact fun _ _ he _ => h he
  · exact h'

/-- **No comment starts** in inert text. -/
theorem stripComment_append {s : List Char} (h : Inert s) (t : List Char) :
    stripComment (s ++ t) = s ++ stripComment t := by
  induction h generalizing t with
  | nil => rfl
  | char hc _ ih =>
    obtain ⟨h₁, -, -, -, h₅, -⟩ := ne_of_isInertChar hc
    rw [List.cons_append, stripComment_char h₁ h₅, ih, List.cons_append]
  | escape _ _ ih =>
    rw [List.cons_append, List.cons_append, stripComment, ih, List.cons_append, List.cons_append]
  | group _ _ ih ih' =>
    rw [List.cons_append, List.append_assoc, List.cons_append,
      stripComment_char (by decide) (by decide), ih, stripComment_char (by decide) (by decide),
      ih', List.cons_append, List.append_assoc, List.cons_append]

theorem stripComment_eq_self {s : List Char} (h : Inert s) : stripComment s = s := by
  have := stripComment_append h []
  rwa [List.append_nil, stripComment, List.append_nil] at this

/-- A part of a text without a comment has none. -/
theorem stripComment_eq_self_of_append {s t : List Char} (h : stripComment (s ++ t) = s ++ t) :
    stripComment s = s := by
  fun_induction stripComment s with
  | case1 => rfl
  | case2 => rfl
  | case3 c s ih =>
    rw [List.cons_append, List.cons_append, stripComment] at h
    rw [ih (List.cons_injective (List.cons_injective h))]
  -- a percent sign would be stripped in the longer text too
  | case4 s => exact absurd h (by simp [stripComment])
  | case5 c s h₁ h₂ h₃ ih =>
    rw [List.cons_append, stripComment_char (ne_backslash h₁ h₂) h₃] at h
    rw [ih (List.cons_injective h)]

/-! ### Table rows -/

theorem tablePieces_char {c : Char} (h : c ≠ '\\') (row s : List Char) :
    tablePieces row (c :: s) = tablePieces (row ++ [c]) s := by
  rw [tablePieces.eq_def]
  simp only [if_neg h]

theorem tablePieces_escape {c : Char} {s : List Char} (h : c ≠ '\\') (hr : rule? (c :: s) = none)
    (row : List Char) : tablePieces row ('\\' :: c :: s) = tablePieces (row ++ ['\\', c]) s := by
  rw [tablePieces.eq_def]
  simp only [↓reduceIte, if_neg h]
  split
  · next hs => rw [hr] at hs; exact absurd hs (by simp)
  · rfl

/-- **A row goes on** through inert text. -/
theorem tablePieces_append {s : List Char} (h : Inert s) (row t : List Char) :
    tablePieces row (s ++ t) = tablePieces (row ++ s) t := by
  induction h generalizing row t with
  | nil => rw [List.nil_append, List.append_nil]
  | char hc _ ih =>
    rw [List.cons_append, tablePieces_char (ne_of_isInertChar hc).1, ih, List.append_assoc,
      List.singleton_append]
  | @escape c s hc _ ih =>
    have hb : c ≠ '\\' := by
      rintro rfl
      exact hc.1 (by simp)
    rw [List.cons_append, List.cons_append, tablePieces_escape hb (hc.2 t), ih, List.append_assoc]
    rfl
  | group _ _ ih ih' =>
    rw [List.cons_append, List.append_assoc, List.cons_append, tablePieces_char (by decide), ih,
      tablePieces_char (by decide), ih', List.append_assoc, List.append_assoc, List.append_assoc]
    rfl

/-! ### Markers -/

/-- A text in which no environment is opened or closed. -/
def Unmarked (s : List Char) : Prop :=
  ¬ "\\begin\x7b".toList <:+: s ∧ ¬ "\\end\x7b".toList <:+: s

instance (s : List Char) : Decidable (Unmarked s) :=
  inferInstanceAs (Decidable (¬ _ ∧ ¬ _))

theorem unmarked_nil : Unmarked [] := by decide

theorem Unmarked.of_infix {s t : List Char} (h : Unmarked t) (hs : s <:+: t) : Unmarked s :=
  ⟨fun hb => h.1 (hb.trans hs), fun he => h.2 (he.trans hs)⟩

theorem unmarked_cons_of_ne {c : Char} (hc : c ≠ '\\') {s : List Char} :
    Unmarked (c :: s) ↔ Unmarked s := by
  have hb : ¬ "\\begin\x7b".toList <+: c :: s := fun h => hc (List.cons_prefix_cons.mp h).1.symm
  have he : ¬ "\\end\x7b".toList <+: c :: s := fun h => hc (List.cons_prefix_cons.mp h).1.symm
  rw [Unmarked, Unmarked, List.infix_cons_iff, List.infix_cons_iff]
  simp only [hb, he, false_or]

theorem unmarked_escape {c : Char} (hb : c ≠ 'b') (he : c ≠ 'e') {s : List Char}
    (h : Unmarked (c :: s)) : Unmarked ('\\' :: c :: s) := by
  rw [Unmarked, List.infix_cons_iff (a := '\\'), List.infix_cons_iff (a := '\\'), not_or, not_or]
  refine ⟨⟨fun hp => ?_, h.1⟩, ⟨fun hp => ?_, h.2⟩⟩
  · exact hb (List.cons_prefix_cons.mp (List.cons_prefix_cons.mp hp).2).1.symm
  · exact he (List.cons_prefix_cons.mp (List.cons_prefix_cons.mp hp).2).1.symm

/-- **No marker starts** in inert text. -/
theorem Inert.unmarked_append {s : List Char} (h : Inert s) {t : List Char} (ht : Unmarked t) :
    Unmarked (s ++ t) := by
  induction h generalizing t with
  | nil => exact ht
  | char hc _ ih =>
    rw [List.cons_append, unmarked_cons_of_ne (ne_of_isInertChar hc).1]
    exact ih ht
  | @escape c s hc _ ih =>
    have hn : c ∉ ['\\', 'b', 'e', '\n', '\r'] := hc.1
    simp only [List.mem_cons, not_or] at hn
    rw [List.cons_append, List.cons_append]
    -- the commands of both markers have another first letter
    refine unmarked_escape hn.2.1 hn.2.2.1 ?_
    rw [unmarked_cons_of_ne hn.1]
    exact ih ht
  | group _ _ ih ih' =>
    rw [List.cons_append, List.append_assoc, List.cons_append, unmarked_cons_of_ne (by decide)]
    apply ih
    rw [unmarked_cons_of_ne (by decide)]
    exact ih' ht

theorem unmarked_append_of_forall {s t : List Char} (h : ∀ c ∈ s, c ≠ '\\') (ht : Unmarked t) :
    Unmarked (s ++ t) := by
  induction s with
  | nil => exact ht
  | cons c s ih =>
    rw [List.forall_mem_cons] at h
    rw [List.cons_append, unmarked_cons_of_ne h.1]
    exact ih h.2

theorem Inert.unmarked {s : List Char} (h : Inert s) : Unmarked s := by
  have := h.unmarked_append unmarked_nil
  rwa [List.append_nil] at this

/-! ### Printed inlines

The equations of the printer, which hold by computation. -/

theorem printInline_text (s : String) : printInline (.text s) = escape s.toList := rfl

theorem printInline_strong (xs : List Inline) :
    printInline (.strong xs) = command "textbf" [printInlines xs] := rfl

theorem printInline_emphasis (xs : List Inline) :
    printInline (.emphasis xs) = command "textit" [printInlines xs] := rfl

theorem printInline_underline (xs : List Inline) :
    printInline (.underline xs) = command "underline" [printInlines xs] := rfl

theorem printInline_code (s : String) :
    printInline (.code s) = command "texttt" [escape s.toList] := rfl

theorem printInline_lineBreak : printInline .lineBreak = "\\newline ".toList := rfl

theorem printInline_link (href : String) (xs : List Inline) :
    printInline (.link href xs) = command "href" [escape href.toList, printInlines xs] := rfl

theorem printInline_image (src : String) :
    printInline (.image src none) = command "includegraphics" [escape src.toList] := rfl

theorem printInline_image_alt (src alt : String) :
    printInline (.image src (some alt))
      = "\\includegraphics[alt=".toList ++ '\x7b' :: (escape alt.toList ++ '\x7d' :: ']' ::
          '\x7b' :: (escape src.toList ++ ['\x7d'])) := by
  have hopen : "\\includegraphics[alt=\x7b".toList
      = "\\includegraphics[alt=".toList ++ ['\x7b'] := by decide
  have hclose : "\x7d]\x7b".toList = ['\x7d', ']', '\x7b'] := by decide
  show "\\includegraphics[alt=\x7b".toList ++ escape alt.toList ++ "\x7d]\x7b".toList ++
    escape src.toList ++ ['\x7d'] = _
  rw [hopen, hclose]
  simp only [List.append_assoc, List.cons_append, List.nil_append]

theorem printInlines_cons (i : Inline) (rest : List Inline) :
    printInlines (i :: rest) = printInline i ++ printInlines rest := rfl

theorem printInlines_append (xs ys : List Inline) :
    printInlines (xs ++ ys) = printInlines xs ++ printInlines ys := by
  induction xs with
  | nil => rfl
  | cons x xs ih =>
    rw [List.cons_append, printInlines_cons, printInlines_cons, ih, List.append_assoc]

/-- A command with one argument, and what follows it. -/
theorem command_append (name : String) (a t : List Char) :
    command name [a] ++ t = '\\' :: (name.toList ++ '\x7b' :: (a ++ '\x7d' :: t)) := by
  simp [command]

/-- A command with two arguments, and what follows it. -/
theorem command_pair_append (name : String) (a b t : List Char) :
    command name [a, b] ++ t
      = '\\' :: (name.toList ++ '\x7b' :: (a ++ '\x7d' :: '\x7b' :: (b ++ '\x7d' :: t))) := by
  simp [command]

/-- A control word is inert if it is none of those that scanners know. -/
theorem inert_word {c : Char} {w s : List Char} (hc : InertCommand (c :: (w ++ s)))
    (hw : ∀ d ∈ w, isInertChar d = true) (hs : Inert s) : Inert ('\\' :: c :: (w ++ s)) :=
  .escape hc ((Inert.of_forall hw).append hs)

theorem inert_command (name : String) (hn : InertCommand name.toList)
    (hw : ∀ c ∈ name.toList, isInertChar c = true) {a : List Char} (ha : Inert a) :
    Inert (command name [a]) := by
  rw [← List.append_nil (command name [a]), command_append]
  cases h : name.toList with
  | nil => exact absurd hn (by simp [h, InertCommand])
  | cons c w =>
    rw [h] at hn hw
    rw [List.forall_mem_cons] at hw
    exact inert_word (hn.append _) hw.2 (.group ha .nil)

theorem inert_escapeChar (c : Char) : Inert (escapeChar c) := by
  -- one case for each special character, the last two for the line endings, then all others
  unfold escapeChar
  split
  · exact inert_word (w := "extbackslash".toList) ⟨by decide, fun _ => rfl⟩ (by decide)
      (.group .nil .nil)
  · exact .escape ⟨by decide, fun _ => rfl⟩ .nil
  · exact .escape ⟨by decide, fun _ => rfl⟩ .nil
  · exact .escape ⟨by decide, fun _ => rfl⟩ .nil
  · exact .escape ⟨by decide, fun _ => rfl⟩ .nil
  · exact .escape ⟨by decide, fun _ => rfl⟩ .nil
  · exact .escape ⟨by decide, fun _ => rfl⟩ .nil
  · exact .escape ⟨by decide, fun _ => rfl⟩ .nil
  · exact inert_word (w := "extasciitilde".toList) ⟨by decide, fun _ => rfl⟩ (by decide)
      (.group .nil .nil)
  · exact inert_word (w := "extasciicircum".toList) ⟨by decide, fun _ => rfl⟩ (by decide)
      (.group .nil .nil)
  · exact .char (by decide) .nil
  · exact .char (by decide) .nil
  · refine .char ?_ .nil
    simp_all [isInertChar]

theorem inert_escape (s : List Char) : Inert (escape s) := by
  induction s with
  | nil => exact .nil
  | cons c s ih =>
    rw [escape, List.flatMap_cons]
    exact (inert_escapeChar c).append ih

mutual

theorem inert_printInline : ∀ i : Inline, Inert (printInline i)
  | .text s => by rw [printInline_text]; exact inert_escape s.toList
  | .strong xs =>
    inert_command "textbf" ⟨by decide, fun _ => rfl⟩ (by decide) (inert_printInlines xs)
  | .emphasis xs =>
    inert_command "textit" ⟨by decide, fun _ => rfl⟩ (by decide) (inert_printInlines xs)
  | .underline xs =>
    inert_command "underline" ⟨by decide, fun _ => rfl⟩ (by decide) (inert_printInlines xs)
  | .code s => inert_command "texttt" ⟨by decide, fun _ => rfl⟩ (by decide) (inert_escape s.toList)
  | .lineBreak => by
    rw [printInline_lineBreak]
    exact inert_word (w := "ewline ".toList) (s := []) ⟨by decide, fun _ => rfl⟩ (by decide) .nil
  | .link href xs => by
    rw [printInline_link, ← List.append_nil (command _ _), command_pair_append]
    exact inert_word (w := "ref".toList) ⟨by decide, fun _ => rfl⟩ (by decide)
      (.group (inert_escape href.toList) (.group (inert_printInlines xs) .nil))
  | .image src none =>
    inert_command "includegraphics" ⟨by decide, fun _ => rfl⟩ (by decide) (inert_escape src.toList)
  | .image src (some alt) => by
    rw [printInline_image_alt]
    -- the bracket between the two groups is a character like any other
    exact inert_word (w := "ncludegraphics[alt=".toList) ⟨by decide, fun _ => rfl⟩ (by decide)
      (.group (inert_escape alt.toList)
        (.char (by decide) (.group (inert_escape src.toList) .nil)))

/-- **Printed inlines are inert.** -/
theorem inert_printInlines : ∀ xs : List Inline, Inert (printInlines xs)
  | [] => .nil
  | i :: rest => by
    rw [printInlines_cons]
    exact (inert_printInline i).append (inert_printInlines rest)

end

end Interdoc.Latex

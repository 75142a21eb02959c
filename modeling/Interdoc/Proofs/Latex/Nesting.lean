import Interdoc.Latex.Item
import Interdoc.Proofs.Latex.Inert
import Interdoc.Proofs.Text.Trim

/-!
# Nested environments

Two scans look for the end of something over many lines: `collectBody` looks for the marker that
closes an environment and counts only the environments of the same name, and `splitItems` looks
for the next item and counts environments of any name.  Lines are `Nested` if every environment
that is opened in them is closed in them, each marker on a line of its own; an item may begin such
a line.

Both scans pass over nested lines and are left with the depth that they came with
(`collectBody_append`, `splitItems_append`).  So an environment around nested lines is collected
whole (`collect_nested`), and so is one that keeps plain lines as they are (`collect_plain`);
an item that holds nested lines ends where the next one begins (`splitItems_item`).
-/

namespace Interdoc.Latex

/-! ### Lines -/

/-- A line on which no environment is opened or closed. -/
structure Plain (line : Line) : Prop where
  unmarked : Unmarked line
  noReturn : '\r' ∉ line

/-- The name of an environment. -/
def IsName (name : List Char) : Prop :=
  name ≠ [] ∧ ∀ c ∈ name, c.isAlpha = true

instance (name : List Char) : Decidable (IsName name) :=
  inferInstanceAs (Decidable (_ ∧ _))

/-- Lines in which every environment that is opened is closed.  The flag says whether a line
outside these environments may be an item. -/
inductive Nested : (items : Bool) → List Line → Prop where
  | nil {items : Bool} : Nested items []
  | line {items : Bool} {line : Line} {lines : List Line} :
    Plain line → (items = false → item? (Text.trim line) = none) → Nested items lines →
      Nested items (line :: lines)
  /-- The opening marker may stand behind the command of an item, and arguments behind the
  marker. -/
  | environment {items : Bool} {label name arguments : List Char} {body lines : List Line} :
    (label = [] ∨ items = true ∧ label = "\\item ".toList) → IsName name →
      Plain arguments → Text.SolidLast arguments → Nested true body → Nested items lines →
      Nested items ((label ++ openingMarker name ++ arguments) :: body ++
        closingMarker name :: lines)

theorem Plain.inert {s : List Char} (h : Inert s) : Plain s where
  unmarked := h.unmarked
  noReturn := h.not_mem.2

theorem plain_nil : Plain [] := .inert .nil

theorem inert_item {s : List Char} (h : Inert s) : Inert ("\\item".toList ++ s) :=
  inert_word (w := "tem".toList) ⟨by decide, fun _ => rfl⟩ (by decide) h

theorem Nested.append {items : Bool} {xs ys : List Line} (hx : Nested items xs)
    (hy : Nested items ys) : Nested items (xs ++ ys) := by
  induction hx with
  | nil => exact hy
  | line hl hi _ ih => exact .line hl hi (ih hy)
  | environment hl hn ha hs hb _ _ ih =>
    have h := Nested.environment hl hn ha hs hb (ih hy)
    simpa only [List.cons_append, List.append_assoc] using h

/-- Where items may stand, they need not. -/
theorem Nested.of_false {lines : List Line} {items : Bool} (h : Nested false lines) :
    Nested items lines := by
  cases items with
  | false => exact h
  | true =>
    -- the induction needs the flag as a variable
    generalize hf : false = flag at h
    induction h with
    | nil => exact .nil
    | line hl _ _ ih => exact .line hl (fun h => absurd h (by decide)) (ih hf)
    | environment hl hn ha hs hb _ _ ih =>
      subst hf
      refine .environment (.inl ?_) hn ha hs hb (ih rfl)
      exact hl.resolve_right fun h => absurd h.1 (by decide)

theorem nested_of_plain {lines : List Line} (h : ∀ line ∈ lines, Plain line) :
    Nested true lines := by
  induction lines with
  | nil => exact .nil
  | cons line lines ih =>
    rw [List.forall_mem_cons] at h
    exact .line h.1 (fun h => absurd h (by decide)) (ih h.2)

/-! ### Markers -/

theorem openingMarker_append (name s : List Char) :
    openingMarker name ++ s = "\\begin\x7b".toList ++ (name ++ '\x7d' :: s) := by
  unfold openingMarker
  simp only [List.append_assoc, List.singleton_append]

theorem closingMarker_append (name s : List Char) :
    closingMarker name ++ s = "\\end\x7b".toList ++ (name ++ '\x7d' :: s) := by
  unfold closingMarker
  simp only [List.append_assoc, List.singleton_append]

/-- A text that a marker can name an environment by, in particular one of letters and stars. -/
structure IsEnvironmentName (name : List Char) : Prop where
  ne_nil : name ≠ []
  plain : ∀ c ∈ name, c ∉ ['\\', '%', '\x7d']

instance (name : List Char) : Decidable (IsEnvironmentName name) :=
  decidable_of_iff (_ ∧ _) ⟨fun h => ⟨h.1, h.2⟩, fun h => ⟨h.1, h.2⟩⟩

theorem isEnvironmentName_of_forall {name : List Char} (hne : name ≠ [])
    (h : ∀ c ∈ name, c.isAlpha = true ∨ c = '*') : IsEnvironmentName name := by
  refine ⟨hne, fun c hc hmem => ?_⟩
  have hspecial : ∀ d ∈ ['\\', '%', '\x7d'], ¬ (d.isAlpha = true ∨ d = '*') := by decide
  exact hspecial c hmem (h c hc)

theorem IsName.isEnvironmentName {name : List Char} (h : IsName name) : IsEnvironmentName name :=
  isEnvironmentName_of_forall h.1 fun c hc => .inl (h.2 c hc)

theorem IsEnvironmentName.ne {name : List Char} (h : IsEnvironmentName name) :
    ∀ c ∈ name, c ≠ '\\' ∧ c ≠ '%' := by
  intro c hc
  have hplain := h.plain c hc
  simp only [List.mem_cons, not_or] at hplain
  exact ⟨hplain.1, hplain.2.1⟩

theorem IsEnvironmentName.not_mem {name : List Char} (h : IsEnvironmentName name) :
    '\x7d' ∉ name := fun hmem => h.plain _ hmem (by decide)

/-- A marker says where the name ends. -/
theorem takeWhile_name {name : List Char} (h : '\x7d' ∉ name) (s : List Char) :
    (name ++ '\x7d' :: s).takeWhile (· != '\x7d') = name := by
  rw [List.takeWhile_append_of_pos, List.takeWhile_cons_of_neg (by decide), List.append_nil]
  intro c hc
  simpa using ne_of_mem_of_not_mem hc h

theorem dropWhile_name {name : List Char} (h : '\x7d' ∉ name) (s : List Char) :
    (name ++ '\x7d' :: s).dropWhile (· != '\x7d') = '\x7d' :: s := by
  rw [List.dropWhile_append_of_pos, List.dropWhile_cons_of_neg (by decide)]
  intro c hc
  simpa using ne_of_mem_of_not_mem hc h

theorem opening?_openingMarker {name : List Char} (h : IsEnvironmentName name)
    (arguments : List Char) :
    opening? (openingMarker name ++ arguments) = some (name, arguments) := by
  have hs : Text.stripPrefix? "\\begin\x7b".toList (openingMarker name ++ arguments)
      = some (name ++ '\x7d' :: arguments) := by
    rw [openingMarker_append, Text.stripPrefix?_append]
  rw [opening?, hs]
  dsimp only
  rw [dropWhile_name h.not_mem, takeWhile_name h.not_mem]
  dsimp only
  rw [if_neg]
  simpa using h.ne_nil

/-- The marker of an environment is not that of another one. -/
theorem eq_of_openingMarker_isPrefix {name other s : List Char} (hn : IsName name)
    (ho : IsName other) (h : openingMarker name <+: openingMarker other ++ s) : name = other := by
  obtain ⟨t, ht⟩ := h
  rw [openingMarker_append, openingMarker_append, List.append_right_inj] at ht
  rw [← takeWhile_name hn.isEnvironmentName.not_mem t, ht,
    takeWhile_name ho.isEnvironmentName.not_mem]

theorem eq_of_closingMarker_isPrefix {name other s : List Char} (hn : IsName name)
    (ho : IsName other) (h : closingMarker name <+: closingMarker other ++ s) : name = other := by
  obtain ⟨t, ht⟩ := h
  rw [closingMarker_append, closingMarker_append, List.append_right_inj] at ht
  rw [← takeWhile_name hn.isEnvironmentName.not_mem t, ht,
    takeWhile_name ho.isEnvironmentName.not_mem]

/-- There are no carriage returns in nested lines. -/
theorem Nested.noReturn {items : Bool} {lines : List Line} (h : Nested items lines) :
    ∀ line ∈ lines, '\r' ∉ line := by
  induction h with
  | nil => simp
  | line hl _ _ ih => exact List.forall_mem_cons.mpr ⟨hl.noReturn, ih⟩
  | @environment items label name arguments body lines hl hn ha _ _ _ ih ih' =>
    have hname : '\r' ∉ name := fun hc => absurd (hn.2 _ hc) (by decide)
    have hlabel : '\r' ∉ label := by
      rcases hl with rfl | ⟨-, rfl⟩ <;> decide
    -- both markers are a command, the name and a brace
    have hmarker {s t : List Char} (hs : '\r' ∉ s) (ht : '\r' ∉ t) :
        '\r' ∉ s ++ (name ++ '\x7d' :: t) := by
      rw [List.mem_append, List.mem_append, List.mem_cons]
      rintro (h | h | h | h)
      · exact hs h
      · exact hname h
      · exact absurd h (by decide)
      · exact ht h
    have hopen : '\r' ∉ label ++ openingMarker name ++ arguments := by
      rw [List.append_assoc, openingMarker_append, ← List.append_assoc]
      refine hmarker ?_ ha.noReturn
      rw [List.mem_append, not_or]
      exact ⟨hlabel, by decide⟩
    have hclose : '\r' ∉ closingMarker name := by
      rw [← List.append_nil (closingMarker name), closingMarker_append]
      exact hmarker (by decide) (by decide)
    rw [List.cons_append, List.forall_mem_cons, List.forall_mem_append, List.forall_mem_cons]
    exact ⟨hopen, ih, hclose, ih'⟩

/-! ### The scan for a closing marker -/

theorem foldr_cons_stillOpen (s : List Char) (depth : Nat) :
    s.foldr CloseScan.cons (.stillOpen depth) = .stillOpen depth := by
  induction s with
  | nil => rfl
  | cons c s ih => rw [List.foldr_cons, ih, CloseScan.cons]

/-- The rest of a marker is passed over. -/
theorem scanClose_skip (name : List Char) (depth : Nat) (s t : List Char) :
    scanClose name depth s.length (s ++ t)
      = s.foldr CloseScan.cons (scanClose name depth 0 t) := by
  induction s with
  | nil => rfl
  | cons c s ih => rw [List.cons_append, List.length_cons, scanClose, ih, List.foldr_cons]

theorem scanClose_cons {name : List Char} {c : Char} {s : List Char}
    (ho : ¬ openingMarker name <+: c :: s) (hc : ¬ closingMarker name <+: c :: s) (depth : Nat) :
    scanClose name depth 0 (c :: s) = (scanClose name depth 0 s).cons c := by
  have hb : Text.startsWith (openingMarker name) (c :: s) = false := by
    rw [← Bool.not_eq_true, Text.startsWith_iff]
    exact ho
  have hn : Text.stripPrefix? (closingMarker name) (c :: s) = none :=
    Text.stripPrefix?_eq_none_iff.mpr hc
  rw [scanClose, hb, Bool.and_false, if_neg (by decide)]
  exact hn

theorem openingMarker_isPrefix (name : List Char) {s : List Char}
    (h : openingMarker name <+: s) : "\\begin\x7b".toList <+: s := by
  refine List.IsPrefix.trans ?_ h
  rw [← List.append_nil (openingMarker name), openingMarker_append]
  exact List.prefix_append _ _

theorem closingMarker_isPrefix (name : List Char) {s : List Char}
    (h : closingMarker name <+: s) : "\\end\x7b".toList <+: s := by
  refine List.IsPrefix.trans ?_ h
  rw [← List.append_nil (closingMarker name), closingMarker_append]
  exact List.prefix_append _ _

/-- An environment goes on through a line without markers. -/
theorem scanClose_of_unmarked {s : List Char} (h : Unmarked s) (name : List Char) (depth : Nat) :
    scanClose name depth 0 s = .stillOpen depth := by
  induction s with
  | nil => rw [scanClose]
  | cons c s ih =>
    rw [scanClose_cons, ih (h.of_infix (List.suffix_cons c s).isInfix), CloseScan.cons]
    · exact fun ho => h.1 (openingMarker_isPrefix name ho).isInfix
    · exact fun hc => h.2 (closingMarker_isPrefix name hc).isInfix

/-- **No marker is found** in inert text. -/
theorem scanClose_append {s : List Char} (h : Inert s) (name : List Char) (depth : Nat)
    (t : List Char) :
    scanClose name depth 0 (s ++ t) = s.foldr CloseScan.cons (scanClose name depth 0 t) := by
  -- both markers begin with a backslash
  have hstep {c : Char} (hc : c ≠ '\\') (u : List Char) :
      scanClose name depth 0 (c :: u) = (scanClose name depth 0 u).cons c := by
    apply scanClose_cons
    · exact fun ho => hc (List.cons_prefix_cons.mp (openingMarker_isPrefix name ho)).1.symm
    · exact fun ho => hc (List.cons_prefix_cons.mp (closingMarker_isPrefix name ho)).1.symm
  induction h generalizing t with
  | nil => rfl
  | char hc _ ih =>
    rw [List.cons_append, hstep (ne_of_isInertChar hc).1, ih, List.foldr_cons]
  | @escape c s hc _ ih =>
    have hn : c ∉ ['\\', 'b', 'e', '\n', '\r'] := hc.1
    simp only [List.mem_cons, not_or] at hn
    rw [List.cons_append, List.cons_append, scanClose_cons, hstep hn.1, ih, List.foldr_cons,
      List.foldr_cons]
    · intro ho
      have hp := (List.cons_prefix_cons.mp (openingMarker_isPrefix name ho)).2
      exact hn.2.1 (List.cons_prefix_cons.mp hp).1.symm
    · intro ho
      have hp := (List.cons_prefix_cons.mp (closingMarker_isPrefix name ho)).2
      exact hn.2.2.1 (List.cons_prefix_cons.mp hp).1.symm
  | group _ _ ih ih' =>
    rw [List.cons_append, List.append_assoc, List.cons_append, hstep (by decide), ih,
      hstep (by decide), ih', List.foldr_cons, List.foldr_append, List.foldr_cons]

/-- No closing marker is an opening one. -/
theorem not_openingMarker_isPrefix (name other s : List Char) :
    ¬ openingMarker name <+: closingMarker other ++ s := by
  intro h
  have hp := openingMarker_isPrefix name h
  rw [closingMarker_append] at hp
  exact absurd (List.cons_prefix_cons.mp (List.cons_prefix_cons.mp hp).2).1 (by decide)

/-- No opening marker is a closing one. -/
theorem not_closingMarker_isPrefix (name other s : List Char) :
    ¬ closingMarker name <+: openingMarker other ++ s := by
  intro h
  have hp := closingMarker_isPrefix name h
  rw [openingMarker_append] at hp
  exact absurd (List.cons_prefix_cons.mp (List.cons_prefix_cons.mp hp).2).1 (by decide)

/-- The marker that opens another environment of the same name. -/
theorem scanClose_openingMarker {name : List Char} (h : isVerbatim name = false) (depth : Nat)
    (s : List Char) :
    scanClose name depth 0 (openingMarker name ++ s)
      = (openingMarker name).foldr CloseScan.cons (scanClose name (depth + 1) 0 s) := by
  obtain ⟨m, hm⟩ : ∃ m, openingMarker name = '\\' :: m := ⟨_, rfl⟩
  have hs : Text.startsWith (openingMarker name) (openingMarker name ++ s) = true :=
    Text.startsWith_iff.mpr (List.prefix_append _ s)
  have hc : Text.stripPrefix? (closingMarker name) (openingMarker name ++ s) = none :=
    Text.stripPrefix?_eq_none_iff.mpr (not_closingMarker_isPrefix name name s)
  -- the marker is seen at its backslash and then passed over
  rw [hm, List.cons_append] at hs hc ⊢
  rw [scanClose, h, hm, hs, Bool.not_false, Bool.and_true, if_pos rfl, List.length_cons,
    Nat.add_sub_cancel, scanClose_skip, List.foldr_cons]
  exact hc

/-- The marker that closes the environment itself, or one of the same name in it. -/
theorem scanClose_closingMarker (name : List Char) (depth : Nat) (s : List Char) :
    scanClose name depth 0 (closingMarker name ++ s)
      = match depth with
        | 0 => .closed [] s
        | depth + 1 => (closingMarker name).foldr CloseScan.cons (scanClose name depth 0 s) := by
  obtain ⟨m, hm⟩ : ∃ m, closingMarker name = '\\' :: m := ⟨_, rfl⟩
  have hs := Text.stripPrefix?_append (closingMarker name) s
  -- a closing marker is no opening marker, so nothing more is opened
  have ho : Text.startsWith (openingMarker name) (closingMarker name ++ s) = false := by
    rw [← Bool.not_eq_true, Text.startsWith_iff]
    exact not_openingMarker_isPrefix name name s
  rw [hm, List.cons_append] at hs ho ⊢
  cases depth with
  | zero =>
    rw [scanClose, ho, Bool.and_false, if_neg (by decide)]
    case heq =>
      rw [hm]
      exact hs
  | succ depth =>
    rw [scanClose, ho, Bool.and_false, if_neg (by decide), hm, List.length_cons,
      Nat.add_sub_cancel, scanClose_skip]
    · rfl
    case heq =>
      rw [hm]
      exact hs

/-- In a verbatim environment only the closing marker is looked for. -/
theorem scanClose_cons_of_isVerbatim {name : List Char} (hv : isVerbatim name = true) {c : Char}
    {s : List Char} (h : ¬ closingMarker name <+: c :: s) (depth : Nat) :
    scanClose name depth 0 (c :: s) = (scanClose name depth 0 s).cons c := by
  have hclose : Text.stripPrefix? (closingMarker name) (c :: s) = none :=
    Text.stripPrefix?_eq_none_iff.mpr h
  rw [scanClose, hv, Bool.not_true, Bool.false_and, if_neg (by decide)]
  exact hclose

/-- A verbatim environment goes on through a line without its closing marker. -/
theorem scanClose_of_isVerbatim {name : List Char} (hv : isVerbatim name = true)
    {line : Line} (h : ¬ closingMarker name <:+: line) (depth : Nat) :
    scanClose name depth 0 line = .stillOpen depth := by
  induction line with
  | nil => rw [scanClose]
  | cons c line ih =>
    have hline : ¬ closingMarker name <:+: line := fun hi =>
      h (hi.trans (List.suffix_cons c line).isInfix)
    rw [scanClose_cons_of_isVerbatim hv fun hp => h hp.isInfix, ih hline, CloseScan.cons]

/-- No marker stands behind the command of a marker. -/
theorem unmarked_name {name arguments : List Char} (hn : IsName name) (ha : Unmarked arguments) :
    Unmarked (name ++ '\x7d' :: arguments) := by
  apply unmarked_append_of_forall fun c hc => (hn.isEnvironmentName.ne c hc).1
  rwa [unmarked_cons_of_ne (by decide)]

/-- The markers of other environments are passed over. -/
theorem scanClose_openingMarker_of_ne {name other arguments : List Char} (hn : IsName name)
    (ho : IsName other) (h : name ≠ other) (ha : Unmarked arguments) (depth : Nat) :
    scanClose name depth 0 (openingMarker other ++ arguments) = .stillOpen depth := by
  have hm : openingMarker other ++ arguments
      = '\\' :: ("begin\x7b".toList ++ (other ++ '\x7d' :: arguments)) :=
    openingMarker_append other arguments
  have hu : Unmarked ("begin\x7b".toList ++ (other ++ '\x7d' :: arguments)) :=
    unmarked_append_of_forall (by decide) (unmarked_name ho ha)
  rw [hm, scanClose_cons, scanClose_of_unmarked hu, CloseScan.cons] <;> rw [← hm]
  · exact fun hp => h (eq_of_openingMarker_isPrefix hn ho hp)
  · exact not_closingMarker_isPrefix name other arguments

theorem scanClose_closingMarker_of_ne {name other : List Char} (hn : IsName name)
    (ho : IsName other) (h : name ≠ other) (depth : Nat) :
    scanClose name depth 0 (closingMarker other) = .stillOpen depth := by
  have hm : closingMarker other ++ [] = '\\' :: ("end\x7b".toList ++ (other ++ ['\x7d'])) :=
    closingMarker_append other []
  have hu : Unmarked ("end\x7b".toList ++ (other ++ ['\x7d'])) :=
    unmarked_append_of_forall (by decide) (unmarked_name ho unmarked_nil)
  rw [← List.append_nil (closingMarker other), hm, scanClose_cons, scanClose_of_unmarked hu,
    CloseScan.cons] <;> rw [← hm]
  · exact not_openingMarker_isPrefix name other []
  · exact fun hp => h (eq_of_closingMarker_isPrefix hn ho hp)

/-! ### The body of an environment -/

/-- Lines put in front of a collected body. -/
def Collected.prepend (lines : List Line) (c : Collected) : Collected :=
  { c with body := lines ++ c.body }

theorem Collected.prepend_prepend (xs ys : List Line) (c : Collected) :
    (c.prepend ys).prepend xs = c.prepend (xs ++ ys) := by
  rw [prepend, prepend, prepend, List.append_assoc]

theorem collectBody_cons {name line : List Char} {depth after : Nat}
    (h : scanClose name depth 0 line = .stillOpen after) (lines : List Line) :
    collectBody name depth (line :: lines) = (collectBody name after lines).prepend [line] := by
  rw [collectBody, h]
  rfl

/-- **The body of an environment goes on** through lines without markers. -/
theorem collectBody_append_of_plain {body : List Line} (h : ∀ line ∈ body, Plain line)
    (name : List Char) (depth : Nat) (tail : List Line) :
    collectBody name depth (body ++ tail) = (collectBody name depth tail).prepend body := by
  induction body with
  | nil => rfl
  | cons line body ih =>
    rw [List.forall_mem_cons] at h
    rw [List.cons_append, collectBody_cons (scanClose_of_unmarked h.1.unmarked name depth),
      ih h.2, Collected.prepend_prepend]
    rfl

/-- **The body of an environment goes on** through nested lines. -/
theorem collectBody_append {items : Bool} {body : List Line} (h : Nested items body)
    {name : List Char} (hn : IsName name) (hv : isVerbatim name = false) (depth : Nat)
    (tail : List Line) :
    collectBody name depth (body ++ tail) = (collectBody name depth tail).prepend body := by
  induction h generalizing depth tail with
  | nil => rfl
  | line hl _ _ ih =>
    rw [List.cons_append, collectBody_cons (scanClose_of_unmarked hl.unmarked name depth), ih,
      Collected.prepend_prepend]
    rfl
  | @environment items label other arguments inner lines hl ho ha _ _ _ ih ih' =>
    have hlabel : Inert label := by
      rcases hl with rfl | ⟨-, rfl⟩
      · exact .nil
      · exact inert_item (.char (by decide) .nil)
    -- an environment of the same name is counted by its markers
    obtain ⟨during, hopen, hclose⟩ : ∃ during,
        scanClose name depth 0 (openingMarker other ++ arguments) = .stillOpen during ∧
        scanClose name during 0 (closingMarker other) = .stillOpen depth := by
      by_cases he : name = other
      · refine ⟨depth + 1, ?_, ?_⟩
        · rw [← he, scanClose_openingMarker hv, scanClose_of_unmarked ha.unmarked,
            foldr_cons_stillOpen]
        · rw [← he, ← List.append_nil (closingMarker name), scanClose_closingMarker]
          dsimp only
          rw [scanClose, foldr_cons_stillOpen]
      · exact ⟨depth, scanClose_openingMarker_of_ne hn ho he ha.unmarked depth,
          scanClose_closingMarker_of_ne hn ho he depth⟩
    have hline : scanClose name depth 0 (label ++ openingMarker other ++ arguments)
        = .stillOpen during := by
      rw [List.append_assoc, scanClose_append hlabel, hopen, foldr_cons_stillOpen]
    have happend : inner ++ closingMarker other :: lines ++ tail
        = inner ++ closingMarker other :: (lines ++ tail) := List.append_assoc _ _ _
    rw [List.cons_append, List.cons_append, collectBody_cons hline, happend, ih,
      collectBody_cons hclose, ih', Collected.prepend_prepend, Collected.prepend_prepend,
      Collected.prepend_prepend, List.append_assoc _ [closingMarker other] lines]
    rfl

theorem collect_of_append {name arguments : List Char}
    (ha : scanClose name 0 0 arguments = .stillOpen 0) {body : List Line}
    (h : ∀ tail, collectBody name 0 (body ++ tail) = (collectBody name 0 tail).prepend body)
    (lines : List Line) :
    collect name arguments (body ++ closingMarker name :: lines)
      = (⟨name, arguments, body, []⟩, lines) := by
  have hs : scanClose name 0 0 (closingMarker name ++ []) = .closed [] [] :=
    scanClose_closingMarker name 0 []
  rw [List.append_nil] at hs
  rw [collect, ha]
  dsimp only
  rw [h, collectBody, hs]
  dsimp only [Collected.prepend]
  rw [if_pos (by decide), List.append_nil]
  rfl

/-- **An environment around nested lines** is collected whole. -/
theorem collect_nested {name arguments : List Char} (hn : IsName name)
    (hv : isVerbatim name = false) (ha : Plain arguments) {body : List Line}
    (hb : Nested true body) (lines : List Line) :
    collect name arguments (body ++ closingMarker name :: lines)
      = (⟨name, arguments, body, []⟩, lines) :=
  collect_of_append (scanClose_of_unmarked ha.unmarked name 0) (collectBody_append hb hn hv 0) lines

/-- **An environment that keeps plain lines** is collected whole, whatever its name is. -/
theorem collect_plain {name arguments : List Char} (ha : Plain arguments) {body : List Line}
    (hb : ∀ line ∈ body, Plain line) (lines : List Line) :
    collect name arguments (body ++ closingMarker name :: lines)
      = (⟨name, arguments, body, []⟩, lines) :=
  collect_of_append (scanClose_of_unmarked ha.unmarked name 0)
    (collectBody_append_of_plain hb name 0) lines

/-! ### Counting markers -/

theorem countAux_of_not_isInfix {p s : List Char} (h : ¬ p <:+: s) : Text.countAux p 0 s = 0 := by
  induction s with
  | nil => rw [Text.countAux]
  | cons c s ih =>
    have hs : ¬ Text.startsWith p (c :: s) = true := by
      rw [Text.startsWith_iff]
      exact fun hp => h hp.isInfix
    rw [Text.countAux, if_neg hs]
    exact ih fun hi => h (hi.trans (List.suffix_cons c s).isInfix)

/-- The number of open environments does not change on a line without markers. -/
theorem depthAfter_of_unmarked {line : List Char} (h : Unmarked line) (depth : Nat) :
    depthAfter depth line = depth := by
  rw [depthAfter, Text.count, Text.count, countAux_of_not_isInfix h.1,
    countAux_of_not_isInfix h.2]
  rfl

theorem depthAfter_openingMarker {label name arguments : List Char}
    (hl : label = [] ∨ label = "\\item ".toList) (hn : IsName name) (ha : Unmarked arguments)
    (depth : Nat) :
    depthAfter depth (label ++ openingMarker name ++ arguments) = depth + 1 := by
  have hu : Unmarked (name ++ '\x7d' :: arguments) :=
    unmarked_name hn ha
  -- the command of the marker is found once, and nothing behind it
  have hb : Text.count "\\begin\x7b".toList (label ++ openingMarker name ++ arguments)
      = Text.countAux "\\begin\x7b".toList 0 (name ++ '\x7d' :: arguments) + 1 := by
    rw [List.append_assoc, openingMarker_append]
    rcases hl with rfl | rfl <;> rfl
  have he : Text.count "\\end\x7b".toList (label ++ openingMarker name ++ arguments)
      = Text.countAux "\\end\x7b".toList 0 (name ++ '\x7d' :: arguments) := by
    rw [List.append_assoc, openingMarker_append]
    rcases hl with rfl | rfl <;> rfl
  rw [depthAfter, hb, he, countAux_of_not_isInfix hu.1, countAux_of_not_isInfix hu.2]
  rfl

theorem depthAfter_closingMarker {name : List Char} (hn : IsName name) (depth : Nat) :
    depthAfter (depth + 1) (closingMarker name) = depth := by
  have hu : Unmarked (name ++ ['\x7d']) := unmarked_name hn unmarked_nil
  have hb : Text.count "\\begin\x7b".toList (closingMarker name)
      = Text.countAux "\\begin\x7b".toList 0 (name ++ ['\x7d']) := by
    rw [← List.append_nil (closingMarker name), closingMarker_append]
    rfl
  have he : Text.count "\\end\x7b".toList (closingMarker name)
      = Text.countAux "\\end\x7b".toList 0 (name ++ ['\x7d']) + 1 := by
    rw [← List.append_nil (closingMarker name), closingMarker_append]
    rfl
  rw [depthAfter, hb, he, countAux_of_not_isInfix hu.1, countAux_of_not_isInfix hu.2]
  rfl

/-! ### The lines of an item -/

/-- Lines put in front of those before the first item. -/
def prependLeading (lines : List Line) (r : List Line × List (List Line)) :
    List Line × List (List Line) :=
  (lines ++ r.1, r.2)

theorem prependLeading_prependLeading (xs ys : List Line) (r : List Line × List (List Line)) :
    prependLeading xs (prependLeading ys r) = prependLeading (xs ++ ys) r := by
  rw [prependLeading, prependLeading, prependLeading, List.append_assoc]

/-- A line that begins no item, since it does not look like one or stands in an environment. -/
theorem splitItems_cons {depth : Nat} {line : Line} (h : depth = 0 → item? (Text.trim line) = none)
    (lines : List Line) :
    splitItems depth (line :: lines)
      = prependLeading [line] (splitItems (depthAfter depth (Text.trim line)) lines) := by
  have hn : (if depth = 0 then item? (Text.trim line) else none) = none := by
    split
    · next hd => exact h hd
    · rfl
  rw [splitItems, hn]
  rfl

theorem trim_openingMarker {label name arguments : List Char}
    (hl : label = [] ∨ label = "\\item ".toList) (hs : Text.SolidLast arguments) :
    Text.trim (label ++ openingMarker name ++ arguments)
      = label ++ openingMarker name ++ arguments := by
  apply Text.trim_eq_self
  · rcases hl with rfl | rfl <;> exact Text.solidHead_cons.mpr (by decide)
  · by_cases ha : arguments = []
    · have hm : Text.SolidLast (openingMarker name) := Text.solidLast_concat.mpr (by decide)
      rw [ha, List.append_nil]
      exact (Text.solidLast_append (List.cons_ne_nil _ _)).mpr hm
    · exact (Text.solidLast_append ha).mpr hs

theorem trim_closingMarker (name : List Char) :
    Text.trim (closingMarker name) = closingMarker name := by
  apply Text.trim_eq_self
  · exact Text.solidHead_cons.mpr (by decide)
  · exact Text.solidLast_concat.mpr (by decide)

/-- **An item goes on** through nested lines, if these can hold no item or are inside an
environment. -/
theorem splitItems_append {items : Bool} {lines : List Line} (h : Nested items lines)
    {depth : Nat} (hd : items = true → depth ≠ 0) (tail : List Line) :
    splitItems depth (lines ++ tail) = prependLeading lines (splitItems depth tail) := by
  induction h generalizing depth tail with
  | nil => rfl
  | @line items line lines hl hi _ ih =>
    have hu := hl.unmarked.of_infix (Text.trim_isInfix line)
    have hitem : depth = 0 → item? (Text.trim line) = none := by
      intro h0
      apply hi
      rw [← Bool.not_eq_true]
      exact fun ht => hd ht h0
    rw [List.cons_append, splitItems_cons hitem, depthAfter_of_unmarked hu, ih hd,
      prependLeading_prependLeading]
    rfl
  | @environment items label name arguments inner lines hl hn ha hs _ _ ih ih' =>
    -- inside the environment the depth is not zero, so its lines may be items
    have hl' : label = [] ∨ label = "\\item ".toList := hl.imp_right fun h => h.2
    have hitem : depth = 0 →
        item? (Text.trim (label ++ openingMarker name ++ arguments)) = none := by
      intro h0
      rcases hl with rfl | ⟨ht, -⟩
      · rw [trim_openingMarker (.inl rfl) hs]
        rfl
      · exact absurd h0 (hd ht)
    have happend : inner ++ closingMarker name :: lines ++ tail
        = inner ++ closingMarker name :: (lines ++ tail) := List.append_assoc _ _ _
    rw [List.cons_append, List.cons_append, splitItems_cons hitem, trim_openingMarker hl' hs,
      depthAfter_openingMarker hl' hn ha.unmarked, happend, ih (fun _ => Nat.succ_ne_zero depth),
      splitItems_cons (fun h0 => absurd h0 (Nat.succ_ne_zero depth)), trim_closingMarker,
      depthAfter_closingMarker hn, ih' hd, prependLeading_prependLeading,
      prependLeading_prependLeading, prependLeading_prependLeading,
      List.append_assoc _ [closingMarker name] lines]
    rfl

/-- The line that nested lines without items begin with. -/
theorem nested_cons {first : Line} {rest : List Line} (h : Nested false (first :: rest)) :
    (Plain first ∧ item? (Text.trim first) = none ∧ Nested false rest) ∨
      ∃ name arguments body lines, first = openingMarker name ++ arguments ∧
        rest = body ++ closingMarker name :: lines ∧ IsName name ∧ Plain arguments ∧
        Text.SolidLast arguments ∧ Nested true body ∧ Nested false lines := by
  generalize hl : first :: rest = lines at h
  cases h with
  | nil => exact absurd hl (List.cons_ne_nil _ _)
  | line hp hi hn =>
    obtain ⟨rfl, rfl⟩ := List.cons.inj hl
    exact .inl ⟨hp, hi rfl, hn⟩
  | environment hlabel hn ha hs hb hrest =>
    obtain ⟨rfl, rfl⟩ := List.cons.inj hl
    rcases hlabel with rfl | ⟨ht, -⟩
    · exact .inr ⟨_, _, _, _, rfl, rfl, hn, ha, hs, hb, hrest⟩
    · exact absurd ht (by decide)

/-- What stands behind the command of an item: nothing, or a space and the first line. -/
def BehindItem (first behind : Line) : Prop :=
  first = [] ∧ behind = [] ∨ behind = ' ' :: first

theorem BehindItem.trim {first behind : Line} (h : BehindItem first behind) :
    Text.trim behind = Text.trim first := by
  rcases h with ⟨rfl, rfl⟩ | rfl
  · rfl
  · exact Text.trim_append_of_isBlank (s := [' ']) (by decide) first

/-- **The command of an item** and what it is read as. -/
theorem item?_item {first behind : Line} (h : BehindItem first behind) :
    item? (Text.trim ("\\item".toList ++ behind)) = some (Text.trim first) := by
  have ht : Text.trim ("\\item".toList ++ behind) = "\\item".toList ++ Text.trimRight behind := by
    have hs : Text.SolidHead ("\\item".toList ++ behind) := Text.solidHead_cons.mpr (by decide)
    rw [Text.trim, Text.trimLeft_eq_self hs, Text.trimRight_append_of_solidLast (by decide)]
  -- no letter follows the command, so it is not part of a longer one
  have hhead : Text.trimRight behind = [] ∨ ∃ s, Text.trimRight behind = ' ' :: s := by
    cases hb : Text.trimRight behind with
    | nil => exact .inl rfl
    | cons c s =>
      obtain ⟨t, ht⟩ := Text.trimRight_isPrefix behind
      rw [hb] at ht
      rcases h with ⟨-, rfl⟩ | rfl
      · exact absurd ht (List.cons_ne_nil _ _)
      · exact .inr ⟨s, by rw [(List.cons.inj ht).1]⟩
  rw [item?, ht, Text.stripPrefix?_append, ← h.trim, ← Text.trimLeft_trimRight]
  rcases hhead with hb | ⟨s, hb⟩ <;> rw [hb] <;> rfl

/-- The command of an item opens no environment. -/
theorem depthAfter_item {first behind : Line} {rest : List Line}
    (h : Nested false (first :: rest)) (hb : BehindItem first behind) :
    depthAfter 0 (Text.trim ("\\item".toList ++ behind)) = depthAfter 0 (Text.trim first) := by
  rcases nested_cons h with ⟨hp, -⟩ | ⟨name, arguments, _, _, rfl, -, hn, ha, hs, -⟩
  · have hu : Unmarked ("\\item".toList ++ behind) := by
      have hbehind : Unmarked behind := by
        rcases hb with ⟨-, rfl⟩ | rfl
        · exact unmarked_nil
        · rw [unmarked_cons_of_ne (by decide)]
          exact hp.unmarked
      exact (inert_item .nil).unmarked_append hbehind
    rw [depthAfter_of_unmarked (hu.of_infix (Text.trim_isInfix _)),
      depthAfter_of_unmarked (hp.unmarked.of_infix (Text.trim_isInfix _))]
  · -- the marker stands behind the command, which changes no count
    rcases hb with ⟨hb, -⟩ | rfl
    · exact absurd hb (List.cons_ne_nil _ _)
    have hlabel : "\\item".toList ++ ' ' :: (openingMarker name ++ arguments)
        = "\\item ".toList ++ openingMarker name ++ arguments := rfl
    have hfirst : openingMarker name ++ arguments = [] ++ openingMarker name ++ arguments := rfl
    rw [hlabel, hfirst, trim_openingMarker (.inr rfl) hs, trim_openingMarker (.inl rfl) hs,
      depthAfter_openingMarker (.inr rfl) hn ha.unmarked,
      depthAfter_openingMarker (.inl rfl) hn ha.unmarked]

/-- **An item that holds nested lines** ends where the next one begins. -/
theorem splitItems_item {first behind : Line} {rest : List Line}
    (h : Nested false (first :: rest)) (hb : BehindItem first behind) (tail : List Line) :
    splitItems 0 (("\\item".toList ++ behind) :: (rest ++ tail))
      = ([], (Text.trim first :: rest ++ (splitItems 0 tail).1) :: (splitItems 0 tail).2) := by
  have hnone : item? (Text.trim first) = none := by
    rcases nested_cons h with ⟨-, hi, -⟩ | ⟨name, arguments, _, _, rfl, -, -, -, hs, -⟩
    · exact hi
    · have ht : Text.trim (openingMarker name ++ arguments) = openingMarker name ++ arguments :=
        trim_openingMarker (.inl rfl) hs
      rw [ht]
      rfl
  -- without its command, the item is the beginning of nested lines
  have hrest : splitItems (depthAfter 0 (Text.trim first)) (rest ++ tail)
      = prependLeading rest (splitItems 0 tail) := by
    have hall : splitItems 0 (first :: rest ++ tail) = _ := splitItems_append h (by decide) tail
    rw [List.cons_append, splitItems_cons fun _ => hnone] at hall
    have h₁ := congrArg Prod.fst hall
    have h₂ := congrArg Prod.snd hall
    exact Prod.ext (List.cons.inj h₁).2 h₂
  rw [splitItems, depthAfter_item h hb, hrest, if_pos rfl, item?_item hb]
  rfl

/-- The lines of an item are nested in those of its list. -/
theorem nested_item {first behind : Line} {rest : List Line} (h : Nested false (first :: rest))
    (hb : BehindItem first behind) :
    Nested true (("\\item".toList ++ behind) :: rest) := by
  rcases nested_cons h with ⟨hp, -, hrest⟩ |
    ⟨name, arguments, body, lines, rfl, rfl, hn, ha, hs, hbody, hlines⟩
  · refine .line ?_ (fun h => absurd h (by decide)) hrest.of_false
    rcases hb with ⟨-, rfl⟩ | rfl
    · exact .inert (inert_item .nil)
    · have hspace : Unmarked (' ' :: first) := (unmarked_cons_of_ne (by decide)).mpr hp.unmarked
      refine ⟨(inert_item .nil).unmarked_append hspace, ?_⟩
      rw [List.mem_append, List.mem_cons, not_or, not_or]
      exact ⟨by decide, by decide, hp.noReturn⟩
  · rcases hb with ⟨hb, -⟩ | rfl
    · exact absurd hb (List.cons_ne_nil _ _)
    exact .environment (.inr ⟨rfl, rfl⟩) hn ha hs hbody hlines.of_false

/-- The lines of an item, and what they are read as. -/
structure ItemOf (source content : List Line) : Prop where
  nested : Nested true source
  split (tail : List Line) : splitItems 0 (source ++ tail)
    = ([], (content ++ (splitItems 0 tail).1) :: (splitItems 0 tail).2)

theorem itemOf_nested {first behind : Line} {rest : List Line}
    (h : Nested false (first :: rest)) (hb : BehindItem first behind) :
    ItemOf (("\\item".toList ++ behind) :: rest) (Text.trim first :: rest) where
  nested := nested_item h hb
  split := splitItems_item h hb

/-- **The items of a list** one after the other. -/
theorem splitItems_items {items : List (List Line × List Line)}
    (h : ∀ item ∈ items, ItemOf item.1 item.2) :
    splitItems 0 (items.flatMap Prod.fst) = ([], items.map Prod.snd) := by
  induction items with
  | nil => rfl
  | cons item items ih =>
    rw [List.forall_mem_cons] at h
    rw [List.flatMap_cons, h.1.split, ih h.2, List.append_nil, List.map_cons]

theorem itemLines_items {items : List (List Line × List Line)}
    (h : ∀ item ∈ items, ItemOf item.1 item.2) :
    itemLines (items.flatMap Prod.fst) = items.map Prod.snd := by
  rw [itemLines, splitItems_items h]
  rfl

theorem nested_items {items : List (List Line × List Line)}
    (h : ∀ item ∈ items, ItemOf item.1 item.2) : Nested true (items.flatMap Prod.fst) := by
  induction items with
  | nil => exact .nil
  | cons item items ih =>
    rw [List.forall_mem_cons] at h
    rw [List.flatMap_cons]
    exact h.1.nested.append (ih h.2)

end Interdoc.Latex

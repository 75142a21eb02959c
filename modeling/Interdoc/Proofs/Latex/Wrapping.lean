import Interdoc.Proofs.Document.Congruence
import Interdoc.Proofs.Latex.Composition
import Interdoc.Proofs.Latex.Verbatim

/-!
# Wrapped lines

The lines of a paragraph are read one by one and joined with a space, unless a line break ends the
line before (`joinLine`). So a space between two words of a printed paragraph may be a line break
instead, as long as the two lines can be read on their own: no group may be open where the line is
broken. In an argument the first line ends before the brace that closes it, the command in front of
it is none, and its backslash is read as text; no line that follows can change that.

* `space_of_printInline`: where a space of a printed inline can stand,
* `normalizeList_joinLine_text`, `normalizeList_joinLine_lineBreak`: two lines are joined as if they
  were read at once with a space between them,
* `parse_break_eq`, `parse_break_ne`: what follows for the paragraph in the two cases,
* `parse_wrap`: the line break is read like the space exactly where all groups are closed.
-/

namespace Interdoc.Latex

open Inline (normalizeList normalizeList_cons normalizeList_congr_append
  normalizeList_append_congr spaceEndsList)

/-! ### Closed groups -/

/-- All groups that are opened in a text are closed in it, and no other ones: braces around the text
are those of one group. -/
def GroupsClosed (s : List Char) : Prop :=
  braced? ('\x7b' :: (s ++ ['\x7d'])) = some (s, [])

instance (s : List Char) : Decidable (GroupsClosed s) :=
  inferInstanceAs (Decidable (_ = _))

theorem Inert.groupsClosed {s : List Char} (h : Inert s) : GroupsClosed s :=
  braced?_append h []

/-- A character that no case for a closing brace takes is none. -/
theorem ne_closingBrace {c : Char} {depth : Nat} (h : depth = 0 → c = '\x7d' → False)
    (h' : ∀ n, depth = n + 1 → c = '\x7d' → False) : c ≠ '\x7d' := by
  intro hc
  cases depth with
  | zero => exact h rfl hc
  | succ n => exact h' n rfl hc

/-- What ends a group ends it whatever follows. -/
theorem closeBrace?_append_of_eq_some {depth : Nat} {s content behind : List Char}
    (h : closeBrace? depth s = some (content, behind)) (t : List Char) :
    closeBrace? depth (s ++ t) = some (content, behind ++ t) := by
  fun_induction closeBrace? depth s generalizing content behind with
  | case1 => cases h
  | case2 => cases h
  | case3 depth c s ih =>
    obtain ⟨⟨content, behind⟩, hs, hr⟩ := Option.map_eq_some_iff.mp h
    cases hr
    rw [List.cons_append, List.cons_append, closeBrace?, ih hs]
    rfl
  | case4 depth s ih | case6 depth s ih =>
    obtain ⟨⟨content, behind⟩, hs, hr⟩ := Option.map_eq_some_iff.mp h
    cases hr
    rw [List.cons_append, closeBrace?, ih hs]
    rfl
  | case5 s =>
    cases h
    rfl
  | case7 depth c s h₁ h₂ h₃ h₄ h₅ ih =>
    obtain ⟨⟨content, behind⟩, hs, hr⟩ := Option.map_eq_some_iff.mp h
    cases hr
    rw [List.cons_append, closeBrace?_char (ne_backslash h₁ h₂) h₃ (ne_closingBrace h₄ h₅), ih hs]
    rfl

/-- **A part of an argument** does not end the group that it is in. -/
theorem closeBrace?_eq_none_of_append {s t : List Char} (h : Inert (s ++ t)) (depth : Nat) :
    closeBrace? depth s = none := by
  have hall : closeBrace? depth (s ++ t) = none := by
    have hnil := closeBrace?_append h depth []
    rwa [List.append_nil, closeBrace?, Option.map_none] at hnil
  cases hs : closeBrace? depth s with
  | none => rfl
  | some r => exact absurd ((closeBrace?_append_of_eq_some hs t).symm.trans hall) (by simp)

/-- Where a group is open, one brace more closes none of those around it. -/
theorem closeBrace?_concat_of_eq_none {depth : Nat} {s : List Char}
    (h : closeBrace? depth s = none) : closeBrace? (depth + 1) (s ++ ['\x7d']) = none := by
  fun_induction closeBrace? depth s with
  | case1 depth => rfl
  | case2 depth => rfl
  | case3 depth c s ih =>
    rw [List.cons_append, List.cons_append, closeBrace?, ih (Option.map_eq_none_iff.mp h)]
    rfl
  | case4 depth s ih | case6 depth s ih =>
    rw [List.cons_append, closeBrace?, ih (Option.map_eq_none_iff.mp h)]
    rfl
  | case5 s => cases h
  | case7 depth c s h₁ h₂ h₃ h₄ h₅ ih =>
    rw [List.cons_append, closeBrace?_char (ne_backslash h₁ h₂) h₃ (ne_closingBrace h₄ h₅),
      ih (Option.map_eq_none_iff.mp h)]
    rfl

/-- No bracket is seen inside a group that is still open. -/
theorem closeBracket?_eq_none {braces : Nat} {s : List Char} (h : closeBrace? braces s = none)
    (depth : Nat) : closeBracket? depth (braces + 1) s = none := by
  fun_induction closeBrace? braces s with
  | case1 braces => rw [closeBracket?]
  | case2 braces => rw [closeBracket?]
  | case3 braces c s ih => rw [closeBracket?, ih (Option.map_eq_none_iff.mp h), Option.map_none]
  | case4 braces s ih => rw [closeBracket?, ih (Option.map_eq_none_iff.mp h), Option.map_none]
  | case5 s => cases h
  | case6 braces s ih =>
    rw [closeBracket?, Nat.add_sub_cancel, ih (Option.map_eq_none_iff.mp h), Option.map_none]
  | case7 braces c s h₁ h₂ h₃ h₄ h₅ ih =>
    rw [closeBracket?_char (ne_backslash h₁ h₂) h₃ (ne_closingBrace h₄ h₅)
      (.inl (Nat.succ_pos braces)), ih (Option.map_eq_none_iff.mp h), Option.map_none]

/-- **A group that is open** at the end of a text is not closed. -/
theorem not_groupsClosed_of_open {s t : List Char} (hs : Inert s) (ht : closeBrace? 0 t = none) :
    ¬ GroupsClosed (s ++ '\x7b' :: t) := by
  have hopen : closeBrace? 0 (s ++ '\x7b' :: t ++ ['\x7d']) = none := by
    rw [List.append_assoc, closeBrace?_append hs, List.cons_append, closeBrace?,
      closeBrace?_concat_of_eq_none ht]
    rfl
  rw [GroupsClosed, braced?, hopen]
  simp

/-! ### The place of a space -/

/-- A space in two texts is in one of them. -/
theorem append_eq_append_space {s t u v : List Char} (h : s ++ t = u ++ ' ' :: v) :
    (∃ q, s = u ++ ' ' :: q ∧ v = q ++ t) ∨ ∃ p, u = s ++ p ∧ t = p ++ ' ' :: v := by
  rcases List.append_eq_append_iff.mp h with ⟨p, hu, ht⟩ | ⟨q, hs, hv⟩
  · exact .inr ⟨p, hu, ht⟩
  · cases q with
    | nil =>
      rw [List.append_nil] at hs
      exact .inr ⟨[], by rw [hs, List.append_nil], hv.symm⟩
    | cons c q =>
      obtain ⟨rfl, hrest⟩ := List.cons.inj hv
      exact .inl ⟨q, hs, hrest⟩

/-- A space behind a text without spaces. -/
theorem exists_of_append_eq_space {s t u v : List Char} (h : s ++ t = u ++ ' ' :: v)
    (hs : ' ' ∉ s) : ∃ p, u = s ++ p ∧ t = p ++ ' ' :: v := by
  refine (append_eq_append_space h).resolve_left ?_
  rintro ⟨q, rfl, -⟩
  exact hs (by simp)

/-- A space in a printed line is in one of the inlines. -/
theorem exists_inline_of_space {xs : List Inline} {u v : List Char}
    (h : printInlines xs = u ++ ' ' :: v) :
    ∃ ys i zs p q, xs = ys ++ i :: zs ∧ printInline i = p ++ ' ' :: q ∧
      u = printInlines ys ++ p ∧ v = q ++ printInlines zs := by
  induction xs generalizing u with
  | nil => exact absurd h (by simp [printInlines])
  | cons i xs ih =>
    rw [printInlines_cons] at h
    rcases append_eq_append_space h with ⟨q, hi, hv⟩ | ⟨p, hu, hrest⟩
    · exact ⟨[], i, xs, u, q, rfl, hi, rfl, hv⟩
    · obtain ⟨ys, j, zs, p', q, rfl, hj, hp, hv⟩ := ih hrest
      refine ⟨i :: ys, j, zs, p', q, rfl, hj, ?_, hv⟩
      rw [hu, hp, printInlines_cons, List.append_assoc]

theorem eq_space_of_mem_escapeChar {c : Char} (hn : c ≠ '\n') (hr : c ≠ '\r')
    (h : ' ' ∈ escapeChar c) : c = ' ' := by
  unfold escapeChar at h
  split at h
  case h_11 => exact absurd rfl hn
  case h_12 => exact absurd rfl hr
  case h_13 => exact (List.mem_singleton.mp h).symm
  all_goals exact absurd h (by decide)

/-- A space in printed text is printed for a space in the text. -/
theorem exists_of_escape_eq_space {s p q : List Char} (hs : ∀ c ∈ s, c ≠ '\n' ∧ c ≠ '\r')
    (h : escape s = p ++ ' ' :: q) :
    ∃ a b, s = a ++ ' ' :: b ∧ escape a = p ∧ escape b = q := by
  induction s generalizing p with
  | nil => exact absurd h (by simp [escape])
  | cons c s ih =>
    rw [List.forall_mem_cons] at hs
    rw [escape, List.flatMap_cons] at h
    -- only a space is printed with a space, so it is the first character or among the others
    rcases append_eq_append_space h with ⟨r, hc, hq⟩ | ⟨r, hp, hrest⟩
    · have hspace : c = ' ' := eq_space_of_mem_escapeChar hs.1.1 hs.1.2 (by simp [hc])
      subst hspace
      have hsingle : p ++ ' ' :: r = [' '] := hc.symm
      obtain ⟨rfl, hr⟩ | ⟨-, hr⟩ := List.append_eq_singleton_iff.mp hsingle
      · rw [(List.cons.inj hr).2] at hq
        exact ⟨[], s, rfl, rfl, hq.symm⟩
      · exact absurd hr (List.cons_ne_nil _ _)
    · obtain ⟨a, b, rfl, ha, hb⟩ := ih hs.2 hrest
      refine ⟨c :: a, b, rfl, ?_, hb⟩
      rw [hp, ← ha, escape, escape, List.flatMap_cons]

/-! ### Commands that are cut -/

/-- A printed command up to a place in one of its arguments, where it is no command any more. -/
inductive CutCommand : List Char → Prop where
  | mk {w a : List Char} : Inert ('\\' :: w) → closeBrace? 0 a = none →
    Command.read? (w ++ '\x7b' :: a) = none → CutCommand ('\\' :: (w ++ '\x7b' :: a))

/-- A space in a group or behind it. -/
theorem cut_group {body t p q : List Char} (hbody : Inert body)
    (h : '\x7b' :: (body ++ '\x7d' :: t) = p ++ ' ' :: q) :
    (∃ a, p = '\x7b' :: a ∧ closeBrace? 0 a = none) ∨
      ∃ r, p = '\x7b' :: (body ++ '\x7d' :: r) ∧ t = r ++ ' ' :: q := by
  obtain ⟨a, rfl, ha⟩ := exists_of_append_eq_space (s := ['\x7b']) h (by decide)
  rcases append_eq_append_space ha with ⟨r, hr, -⟩ | ⟨r, rfl, hr⟩
  · exact .inl ⟨a, rfl, closeBrace?_eq_none_of_append (hr ▸ hbody) 0⟩
  · obtain ⟨r, rfl, ht⟩ := exists_of_append_eq_space (s := ['\x7d']) hr (by decide)
    exact .inr ⟨r, rfl, ht⟩

/-- A control word that scanners do not know, in front of inert text. -/
theorem inert_control {name s : List Char} (hn : InertCommand name)
    (hw : ∀ c ∈ name, isInertChar c = true) (hs : Inert s) : Inert ('\\' :: (name ++ s)) := by
  cases name with
  | nil => exact hn.elim
  | cons c w => exact inert_word (hn.append s) (fun d hd => hw d (List.mem_cons_of_mem c hd)) hs

/-- A control word with one argument, up to a space in the argument. -/
theorem cutCommand_command (name : String) {body p q : List Char} (hbody : Inert body)
    (hn : InertCommand name.toList) (hw : ∀ c ∈ name.toList, isInertChar c = true)
    (hspace : ' ' ∉ name.toList)
    (hread : ∀ a, closeBrace? 0 a = none → Command.read? (name.toList ++ '\x7b' :: a) = none)
    (h : command name [body] = p ++ ' ' :: q) : CutCommand p := by
  have hname := inert_control hn hw .nil
  have hcommand := command_append name body []
  rw [List.append_nil] at hname
  rw [List.append_nil, h, ← List.cons_append] at hcommand
  obtain ⟨r, rfl, hr⟩ := exists_of_append_eq_space hcommand.symm (by simpa using hspace)
  rcases cut_group hbody hr with ⟨a, rfl, ha⟩ | ⟨r, -, hnil⟩
  · exact .mk hname ha (hread a ha)
  · exact absurd hnil (by simp)

/-- A command with one argument is none if the argument is open. -/
theorem readGroup?_eq_none {a : List Char} (ha : closeBrace? 0 a = none)
    (make : List Char → Command) : Command.readGroup? make ('\x7b' :: a) = none := by
  rw [Command.readGroup?, braced?, ha]
  rfl

theorem cutCommand_link {href label p q : List Char} (hhref : Inert href) (hlabel : Inert label)
    (h : command "href" [href, label] = p ++ ' ' :: q) : CutCommand p := by
  have hcontrol {s : List Char} (hs : Inert s) : Inert ('\\' :: ("href".toList ++ s)) :=
    inert_control ⟨by decide, fun _ => rfl⟩ (by decide) hs
  have hcommand := command_pair_append "href" href label []
  rw [List.append_nil, h, ← List.cons_append] at hcommand
  obtain ⟨r, rfl, hr⟩ := exists_of_append_eq_space hcommand.symm (by decide)
  -- the space stands in the address, or else in the label
  rcases cut_group hhref hr with ⟨a, rfl, ha⟩ | ⟨r, rfl, hsecond⟩
  · have hread : Command.readLink? ('\x7b' :: a) = none := by
      rw [Command.readLink?, braced?, ha]
    exact .mk (hcontrol .nil) ha hread
  rcases cut_group hlabel hsecond with ⟨a, rfl, ha⟩ | ⟨r, -, hnil⟩
  · have hread : Command.readLink? ('\x7b' :: (href ++ '\x7d' :: '\x7b' :: a)) = none := by
      rw [Command.readLink?, braced?_append hhref]
      dsimp only
      rw [braced?, ha]
      rfl
    have hw := hcontrol (.group hhref .nil)
    have hcut := CutCommand.mk hw ha (by
      rw [List.append_assoc, List.cons_append, List.append_assoc]
      exact hread)
    rwa [List.append_assoc, List.cons_append, List.append_assoc] at hcut
  · exact absurd hnil (by simp)

theorem cutCommand_image {alt src p q : List Char} (halt : Inert alt) (hsrc : Inert src)
    (h : "\\includegraphics[alt=".toList ++ '\x7b' :: (alt ++ '\x7d' :: ']' :: '\x7b' ::
      (src ++ ['\x7d'])) = p ++ ' ' :: q) : CutCommand p := by
  have hcontrol {s : List Char} (hs : Inert s) :
      Inert ('\\' :: ("includegraphics[alt=".toList ++ s)) :=
    inert_control ⟨by decide, fun _ => rfl⟩ (by decide) hs
  obtain ⟨r, rfl, hr⟩ := exists_of_append_eq_space h (by decide)
  -- the space stands in the description, or else in the place
  rcases cut_group halt hr with ⟨a, rfl, ha⟩ | ⟨r, rfl, hsecond⟩
  · have hread : Command.readImage? ('[' :: ("alt=".toList ++ '\x7b' :: a)) = none := by
      have hoptions : bracketed? ('[' :: ("alt=".toList ++ '\x7b' :: a)) = none := by
        rw [bracketed?, closeBracket?_append_of_forall (by decide), closeBracket?,
          closeBracket?_eq_none ha]
        rfl
      rw [Command.readImage?, hoptions]
      rfl
    exact .mk (hcontrol .nil) ha hread
  obtain ⟨r, rfl, hsrc'⟩ := exists_of_append_eq_space (s := [']']) hsecond (by decide)
  rcases cut_group hsrc hsrc' with ⟨a, rfl, ha⟩ | ⟨r, -, hnil⟩
  · have hread : Command.readImage? ('[' :: ("alt=".toList ++ '\x7b' :: (alt ++
        '\x7d' :: ']' :: '\x7b' :: a))) = none := by
      rw [Command.readImage?, bracketed?_alt halt]
      dsimp only
      rw [braced?, ha]
      rfl
    have hw := hcontrol (.group halt (.char (c := ']') (by decide) .nil))
    have hcut := CutCommand.mk hw ha (by
      rw [List.append_assoc, List.cons_append, List.append_assoc]
      exact hread)
    rwa [List.append_assoc, List.cons_append, List.append_assoc] at hcut
  · exact absurd hnil (by simp)

theorem CutCommand.not_groupsClosed {s p : List Char} (hp : CutCommand p) (hs : Inert s) :
    ¬ GroupsClosed (s ++ p) := by
  obtain ⟨hw, ha, -⟩ := hp
  rw [← List.cons_append, ← List.append_assoc]
  exact not_groupsClosed_of_open (hs.append hw) ha

/-- What is left of a command that is cut begins with a backslash that is read as itself. -/
theorem CutCommand.exists_tokenize {p : List Char} (h : CutCommand p) :
    ∃ s rest, tokenize p = .text (String.ofList ('\\' :: s)) :: rest := by
  obtain ⟨-, -, hread⟩ := h
  rw [tokenize, if_pos rfl]
  split <;> rename_i hcommand <;> rw [hread] at hcommand <;> cases hcommand
  exact ⟨_, _, rfl⟩

/-- No command is printed like a backslash in a text. -/
theorem startsWith_printInlines {i : Inline} (h : i.isText = false) (rest : List Inline) :
    Text.startsWith (escapeChar '\\') (printInlines (i :: rest)) = false := by
  rw [printInlines_cons]
  match i with
  | .text _ => exact absurd h Bool.noConfusion
  | .strong _ | .emphasis _ | .underline _ | .code _ | .lineBreak | .link _ _ | .image _ none
  | .image _ (some _) => rfl

theorem printInlines_text (s : List Char) : printInlines [.text (String.ofList s)] = escape s := by
  rw [printInlines_cons, printInline_text, String.toList_ofList]
  exact List.append_nil _

/-- **A space in a printed inline** is a space of a text, or the one behind a line break, or it
stands in an argument. -/
theorem space_of_printInline {i : Inline} {p q : List Char} (hi : Inline.OneLine i)
    (h : printInline i = p ++ ' ' :: q) :
    (∃ a b, p = printInlines a ∧ q = printInlines b) ∨
      (i = .lineBreak ∧ p = "\\newline".toList ∧ q = []) ∨ i.isText = false ∧ CutCommand p := by
  -- the names of commands have no spaces, so what is left are texts and groups
  match i with
  | .text s =>
    rw [Inline.OneLine] at hi
    have hs : ∀ c ∈ s.toList, c ≠ '\n' ∧ c ≠ '\r' := fun c hc =>
      ⟨fun hn => hi.1 (hn ▸ hc), fun hr => hi.2 (hr ▸ hc)⟩
    obtain ⟨a, b, -, ha, hb⟩ := exists_of_escape_eq_space hs h
    exact .inl ⟨[.text (String.ofList a)], [.text (String.ofList b)],
      (ha ▸ printInlines_text a).symm, (hb ▸ printInlines_text b).symm⟩
  | .lineBreak =>
    have hbreak : "\\newline".toList ++ [' '] = p ++ ' ' :: q := h
    obtain ⟨r, hp, hr⟩ := exists_of_append_eq_space hbreak (by decide)
    cases r with
    | nil =>
      rw [List.append_nil] at hp
      exact .inr (.inl ⟨rfl, hp, (List.cons.inj hr).2.symm⟩)
    | cons c r => exact absurd (congrArg List.length hr) (by simp)
  | .strong xs =>
    exact .inr (.inr ⟨rfl, cutCommand_command "textbf" (inert_printInlines xs)
      ⟨by decide, fun _ => rfl⟩ (by decide) (by decide)
      (fun a ha => readGroup?_eq_none ha .strong) h⟩)
  | .emphasis xs =>
    exact .inr (.inr ⟨rfl, cutCommand_command "textit" (inert_printInlines xs)
      ⟨by decide, fun _ => rfl⟩ (by decide) (by decide)
      (fun a ha => readGroup?_eq_none ha .emphasis) h⟩)
  | .underline xs =>
    exact .inr (.inr ⟨rfl, cutCommand_command "underline" (inert_printInlines xs)
      ⟨by decide, fun _ => rfl⟩ (by decide) (by decide)
      (fun a ha => readGroup?_eq_none ha .underline) h⟩)
  | .code s =>
    exact .inr (.inr ⟨rfl, cutCommand_command "texttt" (inert_escape s.toList)
      ⟨by decide, fun _ => rfl⟩ (by decide) (by decide)
      (fun a ha => readGroup?_eq_none ha .code) h⟩)
  | .link href xs =>
    exact .inr (.inr ⟨rfl, cutCommand_link (inert_escape href.toList) (inert_printInlines xs) h⟩)
  | .image src none =>
    have hread (a : List Char) (ha : closeBrace? 0 a = none) :
        Command.readImage? ('\x7b' :: a) = none := by
      have hoptions : bracketed? ('\x7b' :: a) = none := rfl
      rw [Command.readImage?, hoptions, braced?, ha]
      rfl
    exact .inr (.inr ⟨rfl, cutCommand_command "includegraphics" (inert_escape src.toList)
      ⟨by decide, fun _ => rfl⟩ (by decide) (by decide) hread h⟩)
  | .image src (some alt) =>
    rw [printInline_image_alt] at h
    exact .inr (.inr ⟨rfl, cutCommand_image (inert_escape alt.toList) (inert_escape src.toList) h⟩)

/-! ### Reading a wrapped line -/

theorem joinLine_eq_append (paragraph line : List Inline) :
    ∃ more, joinLine paragraph line = paragraph ++ more := by
  rw [joinLine]
  split_ifs
  · exact ⟨line, rfl⟩
  · exact ⟨.text " " :: line, rfl⟩

theorem joinLine_ne_nil {paragraph : List Inline} (h : paragraph ≠ []) (line : List Inline) :
    joinLine paragraph line ≠ [] := by
  obtain ⟨more, hmore⟩ := joinLine_eq_append paragraph line
  rw [hmore]
  exact List.append_ne_nil_of_left_ne_nil h more

/-- A paragraph that has begun goes on with what is read next, and other blocks follow it. -/
theorem exists_assemble {paragraph : List Inline} (h : paragraph ≠ []) (segs : List Segment) :
    ∃ more others, assemble paragraph segs = .paragraph (paragraph ++ more) :: others := by
  induction segs generalizing paragraph with
  | nil => exact ⟨[], [], by rw [assemble, flush_of_ne_nil h, List.append_nil]⟩
  | cons seg segs ih =>
    cases seg with
    | text line =>
      obtain ⟨more, hjoin⟩ := joinLine_eq_append paragraph (tokenize line)
      obtain ⟨more', others, hsegs⟩ := ih (joinLine_ne_nil h (tokenize line))
      exact ⟨more ++ more', others, by rw [assemble, hsegs, hjoin, List.append_assoc]⟩
    | _ =>
      exact ⟨[], _, by rw [assemble, flush_of_ne_nil h, List.singleton_append, List.append_nil]⟩

/-! ### Line breaks at the end of a line -/

theorem normalize_ne_of_mem_tokenize {s : List Char} :
    ∀ i ∈ tokenize s, Inline.normalize i ≠ .text "" := by
  fun_induction tokenize s with
  | case1 => exact List.forall_mem_nil _
  | _ =>
    rename_i ih
    exact List.forall_mem_cons.mpr ⟨by simp [Inline.normalize], ih⟩

theorem endsWithBreak_cons_of_ne_nil {xs : List Inline} (h : xs ≠ []) (i : Inline) :
    endsWithBreak (i :: xs) = endsWithBreak xs := by
  rw [endsWithBreak, endsWithBreak, List.getLast?_cons_of_ne_nil h]

/-- A step of the normal form keeps the end of a sequence. -/
theorem endsWithBreak_normalCons {xs : List Inline} (h : xs ≠ []) (i : Inline) :
    Inline.cons i xs ≠ [] ∧ endsWithBreak (Inline.cons i xs) = endsWithBreak xs := by
  rcases i.isText_eq_false_or with hi | ⟨s, rfl⟩
  · rw [Inline.cons_of_not_isText hi]
    exact ⟨List.cons_ne_nil _ _, endsWithBreak_cons_of_ne_nil h i⟩
  by_cases hs : s = ""
  · rw [hs, Inline.cons_empty]
    exact ⟨h, rfl⟩
  rcases Inline.head?_isText_or xs with hxs | ⟨t, tail, rfl⟩
  · rw [Inline.cons_text_of_ne hs hxs]
    exact ⟨List.cons_ne_nil _ _, endsWithBreak_cons_of_ne_nil h _⟩
  · -- the two texts become one, which is the last inline only if the second text was
    rw [Inline.cons_text_text hs]
    refine ⟨List.cons_ne_nil _ _, ?_⟩
    cases tail with
    | nil => rfl
    | cons j tail =>
      have htail := List.cons_ne_nil j tail
      rw [endsWithBreak_cons_of_ne_nil htail, endsWithBreak_cons_of_ne_nil htail]

/-- Normalizing does not change whether a sequence ends with a line break, if it does not end with
an empty text. -/
theorem endsWithBreak_normalizeList {xs : List Inline} (hne : xs ≠ [])
    (h : ∀ i ∈ xs.getLast?, Inline.normalize i ≠ .text "") :
    normalizeList xs ≠ [] ∧ endsWithBreak (normalizeList xs) = endsWithBreak xs := by
  induction xs with
  | nil => exact absurd rfl hne
  | cons i xs ih =>
    rw [normalizeList_cons]
    by_cases hxs : xs = []
    · subst hxs
      have hi := h i rfl
      cases i with
      | text s =>
        have hs : s ≠ "" := fun hs => hi (by rw [hs]; rfl)
        rw [Inline.normalize, Inline.normalizeList, Inline.cons_text_of_ne hs (by simp)]
        exact ⟨List.cons_ne_nil _ _, rfl⟩
      | _ => exact ⟨List.cons_ne_nil _ _, rfl⟩
    · obtain ⟨hn, hbreak⟩ := ih hxs (by rwa [List.getLast?_cons_of_ne_nil hxs] at h)
      rw [endsWithBreak_cons_of_ne_nil hxs, ← hbreak]
      exact endsWithBreak_normalCons hn _

theorem endsWithBreak_tokenize {s : List Char} (hs : s ≠ []) :
    endsWithBreak (tokenize s) = endsWithBreak (normalizeList (tokenize s)) := by
  have hlast : ∀ i ∈ (tokenize s).getLast?, Inline.normalize i ≠ .text "" := fun i hi =>
    normalize_ne_of_mem_tokenize i (List.mem_of_getLast? hi)
  exact (endsWithBreak_normalizeList (mt tokenize_eq_nil_iff.mp hs) hlast).2.symm

/-! ### Reading two lines -/

theorem endsWithBreak_iff {xs : List Inline} :
    endsWithBreak xs = true ↔ ∃ ys, xs = ys ++ [.lineBreak] := by
  rw [← List.getLast?_eq_some_iff, endsWithBreak]
  split <;> simp_all

/-- A line of inlines that ends where a text does is followed by a space. -/
theorem normalizeList_joinLine_text {us : List Inline} (hne : printInlines us ≠ [])
    (hsolid : Text.SolidLast (printInlines us)) (t : List Char) :
    normalizeList (joinLine (tokenize (printInlines us)) (tokenize t)) =
      normalizeList (tokenize (printInlines us ++ ' ' :: t)) := by
  have hread := normalizeList_tokenize_printInlines us
  have hbreak : endsWithBreak (tokenize (printInlines us)) = false := by
    rw [← Bool.not_eq_true, endsWithBreak_tokenize hne, hread, endsWithBreak_iff]
    rintro ⟨ys, hys⟩
    -- a line break would be printed with a space behind it
    have hprint : printInlines us = printInlines ys ++ "\\newline".toList ++ [' '] := by
      rw [← printInlines_spaceEndsList, ← printInlines_normalizeList, hys, printInlines_append,
        List.append_assoc]
      rfl
    rw [hprint, Text.solidLast_concat] at hsolid
    exact absurd hsolid (by decide)
  have hspace : normalizeList (.text " " :: tokenize t) = normalizeList (tokenize (' ' :: t)) := by
    rw [normalizeList_tokenize_cons (by decide), normalizeList_cons]
    rfl
  have hjoin : joinLine (tokenize (printInlines us)) (tokenize t) =
      tokenize (printInlines us) ++ .text " " :: tokenize t := by
    have hempty : (tokenize (printInlines us)).isEmpty = false := by
      rw [List.isEmpty_eq_false_iff]
      exact mt tokenize_eq_nil_iff.mp hne
    rw [joinLine, hbreak, hempty, Bool.or_false, if_neg Bool.false_ne_true]
  rw [hjoin, normalizeList_tokenize_print, normalizeList_append_congr _ hspace]
  exact normalizeList_congr_append hread _

/-- A line of inlines that ends with a line break is followed by no space. -/
theorem normalizeList_joinLine_lineBreak (us : List Inline) (t : List Char) :
    normalizeList (joinLine (tokenize (printInlines us ++ "\\newline".toList)) (tokenize t)) =
      normalizeList (tokenize (printInlines us ++ "\\newline".toList ++ ' ' :: t)) := by
  have htoken : tokenize "\\newline".toList = [.lineBreak] := by
    have hread : Command.read? "newline".toList = some (.lineBreak, []) := rfl
    have hcommand := tokenize_command hread
    rwa [tokenize_nil] at hcommand
  have htokens : tokenize ("\\newline".toList ++ ' ' :: t) = .lineBreak :: tokenize t := by
    have hread : Command.read? ("newline".toList ++ ' ' :: t) = some (.lineBreak, t) := rfl
    exact tokenize_command hread
  have hread : normalizeList (tokenize (printInlines us ++ "\\newline".toList)) =
      normalizeList (spaceEndsList us ++ [.lineBreak]) := by
    rw [normalizeList_tokenize_print, htoken]
  have hbreak : endsWithBreak (tokenize (printInlines us ++ "\\newline".toList)) = true := by
    have hne : spaceEndsList us ++ [.lineBreak] ≠ [] :=
      List.append_ne_nil_of_right_ne_nil _ (List.cons_ne_nil _ _)
    have hlast : ∀ i ∈ (spaceEndsList us ++ [Inline.lineBreak]).getLast?,
        Inline.normalize i ≠ .text "" := by
      intro i hi
      rw [List.getLast?_concat, Option.mem_some_iff] at hi
      subst hi
      rw [Inline.normalize]
      exact Inline.noConfusion
    rw [endsWithBreak_tokenize (List.append_ne_nil_of_right_ne_nil _ (by decide)), hread,
      (endsWithBreak_normalizeList hne hlast).2, endsWithBreak_iff]
    exact ⟨_, rfl⟩
  rw [joinLine, hbreak, Bool.or_true, if_pos rfl, List.append_assoc, normalizeList_tokenize_print,
    htokens, normalizeList_congr_append hread, List.append_assoc, List.singleton_append]

/-! ### The break -/

theorem lines_wrap {u v : List Char} (hu : '\n' ∉ u ∧ '\r' ∉ u) (hv : '\n' ∉ v ∧ '\r' ∉ v)
    (hne : v ≠ []) : Text.lines (u ++ '\n' :: v) = [u, v] := by
  obtain ⟨t, c, rfl⟩ := (List.eq_nil_or_concat' v).resolve_left hne
  have hreturn : '\r' ∉ u ++ '\n' :: (t ++ [c]) := by
    rw [List.mem_append, List.mem_cons, not_or, not_or]
    exact ⟨hu.2, by decide, hv.2⟩
  have hlast : (u ++ '\n' :: (t ++ [c])).getLast? = some c := by
    rw [← List.cons_append, ← List.append_assoc, List.getLast?_concat]
  have hc : c ≠ '\n' := by
    rintro rfl
    exact hv.1 (by simp)
  rw [Text.lines_eq_splitOn hreturn hc hlast, Text.splitOn_append_sep,
    Text.splitOn_of_not_mem hu.1, Text.splitOn_of_not_mem hv.1]
  rfl

/-- A space of a text between two characters that are no blanks, with what stands in front of it and
what stands behind it. -/
structure SpaceBetween (s u v : List Char) : Prop where
  eq_append : s = u ++ ' ' :: v
  front_ne_nil : u ≠ []
  solidLast : Text.SolidLast u
  rest_ne_nil : v ≠ []
  solidHead : Text.SolidHead v

instance (s u v : List Char) : Decidable (SpaceBetween s u v) :=
  decidable_of_iff (s = u ++ ' ' :: v ∧ u ≠ [] ∧ Text.SolidLast u ∧ v ≠ [] ∧ Text.SolidHead v)
    ⟨fun ⟨h₁, h₂, h₃, h₄, h₅⟩ => ⟨h₁, h₂, h₃, h₄, h₅⟩,
      fun ⟨h₁, h₂, h₃, h₄, h₅⟩ => ⟨h₁, h₂, h₃, h₄, h₅⟩⟩

theorem print_paragraph (xs : List Inline) : print {} ⟨[.paragraph xs]⟩ = printInlines xs :=
  joinNonempty_singleton _ _

section

variable {xs : List Inline} (h : Expressible ⟨[.paragraph xs]⟩)

include h

theorem parse_printInlines : parse (printInlines xs) = ⟨[.paragraph xs]⟩ := by
  have hparse := parse_print {} (printableList_of_expressible h.blocks)
  rwa [print_paragraph, h.imageList_eq] at hparse

theorem fitsLine_of_expressible : FitsLine xs ∧ normalizeList xs = xs := by
  obtain ⟨⟨-, hfits⟩, -⟩ := h.blocks
  have hblocks := congrArg Document.blocks h.normal
  rw [Document.normalize, Block.normalizeList, Block.normalize] at hblocks
  exact ⟨hfits, Block.paragraph.inj (List.cons.inj hblocks).1⟩

theorem solidHead_printInlines : Text.SolidHead (printInlines xs) := by
  obtain ⟨hfits, hn⟩ := fitsLine_of_expressible h
  have hnormal := (Inline.isNormalList_iff xs).mpr hn
  have htrim := trimLeft_printInlines hnormal
  rw [trimStart_eq_self hnormal hfits.solidStart] at htrim
  rw [← htrim]
  exact Text.solidHead_trimLeft _

variable {u v : List Char} (hs : SpaceBetween (printInlines xs) u v)

include hs

theorem segments_front (lines : List Line) :
    segments (u :: lines) = .text u :: segments lines := by
  have hprint := hs.eq_append
  have hhead : Text.SolidHead u := by
    rw [← Text.solidHead_append hs.front_ne_nil, ← hprint]
    exact solidHead_printInlines h
  have htrim : Text.trim u = u := Text.trim_eq_self hhead hs.solidLast
  have hcomment : stripComment u = u := by
    apply stripComment_eq_self_of_append (t := ' ' :: v)
    rw [← hprint]
    exact stripComment_eq_self (inert_printInlines xs)
  have hstarts : startsBlock u = false :=
    startsBlock_of_isPrefix (startsBlock_printInlines xs) ⟨_, hprint.symm⟩
  exact segments_trimmed htrim hs.front_ne_nil hcomment hstarts lines

/-- The two lines of a wrapped paragraph are read one after the other. -/
theorem parse_break : parse (u ++ '\n' :: v) =
    ⟨Block.normalizeList (assemble (tokenize u) (segments [v]))⟩ := by
  obtain ⟨hn, hr⟩ := (inert_printInlines xs).not_mem
  rw [hs.eq_append, List.mem_append, List.mem_cons, not_or, not_or] at hn hr
  rw [parse, lines_wrap ⟨hn.1, hr.1⟩ ⟨hn.2.2, hr.2.2⟩ hs.rest_ne_nil, parseBlocks,
    segments_front h hs, assemble]
  rfl

/-- Inlines behind the break are joined to those in front of it as if there were none, where reading
the two parts in turn is reading them with a space between them. -/
theorem parse_break_eq {vs : List Inline} (hv : v = printInlines vs)
    (hjoin : normalizeList (joinLine (tokenize u) (tokenize (Text.trim v))) =
      normalizeList (tokenize (u ++ ' ' :: Text.trim v))) :
    parse (u ++ '\n' :: v) = ⟨[.paragraph xs]⟩ := by
  -- trimming takes nothing from the front of the second line, so the space stays between the two
  have hne : Text.trimRight v ≠ [] := by
    intro hblank
    obtain ⟨c, t, rfl⟩ := List.exists_cons_of_ne_nil hs.rest_ne_nil
    have hc := Text.isBlank_iff.mp (Text.trimRight_eq_nil_iff.mp hblank) c List.mem_cons_self
    rw [Text.solidHead_cons.mp hs.solidHead] at hc
    exact absurd hc (by decide)
  have htrim : Text.trim v = Text.trimRight v := by
    rw [Text.trim, Text.trimLeft_eq_self hs.solidHead]
  have hwhole : Text.trim (printInlines xs) = u ++ ' ' :: Text.trim v := by
    rw [Text.trim, Text.trimLeft_eq_self (solidHead_printInlines h), hs.eq_append, htrim,
      List.append_cons, Text.trimRight_append hne, ← List.append_cons]
  have hsecond : segments [v] = [.text (Text.trim v)] := by
    rw [segments_text (by rwa [htrim]) (by rw [hv]; exact stripComment_trim vs)
      (by rw [hv]; exact startsBlock_trim vs), segments]
  have htokens := mt tokenize_eq_nil_iff.mp hs.front_ne_nil
  obtain ⟨hfits, hn⟩ := fitsLine_of_expressible h
  rw [parse_break h hs, hsecond, assemble, assemble, flush_of_ne_nil (joinLine_ne_nil htokens _),
    Block.normalizeList, Block.normalizeList, Block.normalize, hjoin, ← hwhole,
    normalizeList_tokenize_trim, tidy_of_fitsLine hfits hn]

/-- A command that is cut is no part of the paragraph any more. -/
theorem parse_break_ne {ys zs : List Inline} {i : Inline} {p : List Char} (hi : i.isText = false)
    (hxs : xs = ys ++ i :: zs) (hu : u = printInlines ys ++ p) (hp : CutCommand p) :
    parse (u ++ '\n' :: v) ≠ ⟨[.paragraph xs]⟩ := by
  intro hsame
  have htokens := mt tokenize_eq_nil_iff.mp hs.front_ne_nil
  obtain ⟨more, others, hassemble⟩ := exists_assemble htokens (segments [v])
  rw [parse_break h hs, hassemble, Block.normalizeList, Block.normalize] at hsame
  have hread : normalizeList (tokenize u ++ more) = xs :=
    Block.paragraph.inj (List.cons.inj (Document.mk.inj hsame)).1
  obtain ⟨s, rest, hcut⟩ := hp.exists_tokenize
  -- the inlines that are read are printed like the paragraph, so the text that is left of the
  -- command would be printed like the command
  have hprint : printInlines ys ++
      printInlines (.text (String.ofList ('\\' :: s)) :: rest ++ more) =
        printInlines ys ++ printInlines (i :: zs) := by
    have htokenize : normalizeList (tokenize u) =
        normalizeList (spaceEndsList ys ++ .text (String.ofList ('\\' :: s)) :: rest) := by
      rw [hu, normalizeList_tokenize_print, hcut]
    rw [normalizeList_congr_append htokenize] at hread
    rw [← printInlines_append ys (i :: zs), ← hxs, ← hread, printInlines_normalizeList,
      List.append_assoc, printInlines_append (spaceEndsList ys), printInlines_spaceEndsList]
  have hstarts := startsWith_printInlines hi zs
  rw [← List.append_cancel_left hprint, List.cons_append, printInlines_cons, printInline_text,
    String.toList_ofList, escape, List.flatMap_cons, List.append_assoc,
    Text.startsWith_iff.mpr (List.prefix_append _ _)] at hstarts
  exact Bool.noConfusion hstarts

end

/-- **A wrapped paragraph is read like one on a single line exactly where no group is open**: a line
break in place of a space changes what is read if the space stands in an argument of a command, and
nowhere else. -/
theorem parse_wrap {xs : List Inline} {u v : List Char} (h : Expressible ⟨[.paragraph xs]⟩)
    (hs : SpaceBetween (print {} ⟨[.paragraph xs]⟩) u v) :
    parse (u ++ '\n' :: v) = parse (u ++ ' ' :: v) ↔ GroupsClosed u := by
  rw [print_paragraph] at hs
  have hwhole := parse_printInlines h
  rw [hs.eq_append] at hwhole
  rw [hwhole]
  obtain ⟨ys, i, zs, p, q, hxs, hi, hu, hv⟩ := exists_inline_of_space hs.eq_append
  have hline : Inline.OneLine i := by
    have hfits := (fitsLine_of_expressible h).1.oneLine
    exact Inline.oneLineList_iff.mp hfits i (by rw [hxs]; simp)
  -- the space stands in a text, behind a line break, or in an argument
  rcases space_of_printInline hline hi with ⟨a, b, rfl, rfl⟩ | ⟨rfl, rfl, rfl⟩ | ⟨htext, hcut⟩
  · rw [← printInlines_append] at hu hv
    have hjoin := normalizeList_joinLine_text (hu ▸ hs.front_ne_nil) (hu ▸ hs.solidLast)
      (Text.trim v)
    rw [← hu] at hjoin
    exact iff_of_true (parse_break_eq h hs hv hjoin) (hu ▸ (inert_printInlines _).groupsClosed)
  · have hjoin := normalizeList_joinLine_lineBreak ys (Text.trim v)
    rw [← hu] at hjoin
    have hinert : Inert u := by
      have hbreak : Inert ('\\' :: ("newline".toList ++ [])) :=
        inert_control ⟨by decide, fun _ => rfl⟩ (by decide) .nil
      rw [hu]
      exact (inert_printInlines ys).append hbreak
    exact iff_of_true (parse_break_eq h hs hv hjoin) hinert.groupsClosed
  · rw [hu]
    exact iff_of_false (hu ▸ parse_break_ne h hs htext hxs hu hcut)
      (hcut.not_groupsClosed (inert_printInlines ys))

/-- A paragraph with a space in an argument and one behind it. -/
def strongParagraph : List Inline :=
  [.strong [.text "a b"], .text " c"]

/-- The space in the argument and the one behind it. -/
theorem parse_wrap_strongParagraph :
    Expressible ⟨[.paragraph strongParagraph]⟩ ∧
      parse "\\textbf\x7ba\nb\x7d c".toList ≠ parse "\\textbf\x7ba b\x7d c".toList ∧
      parse "\\textbf\x7ba b\x7d\nc".toList = parse "\\textbf\x7ba b\x7d c".toList := by
  have h : Expressible ⟨[.paragraph strongParagraph]⟩ := by decide
  have hin : SpaceBetween (print {} ⟨[.paragraph strongParagraph]⟩) "\\textbf\x7ba".toList
      "b\x7d c".toList := by decide
  have hbehind : SpaceBetween (print {} ⟨[.paragraph strongParagraph]⟩)
      "\\textbf\x7ba b\x7d".toList "c".toList := by decide
  exact ⟨h, mt (parse_wrap h hin).mp (by decide), (parse_wrap h hbehind).mpr (by decide)⟩

/-- **A command that is wrapped in its argument** is left as text. -/
theorem parse_wrapped_strong :
    let strong : Document := ⟨[.paragraph [.strong [.text "a b"]]]⟩
    Expressible strong ∧
      SpaceBetween (print {} strong) "\\textbf\x7ba".toList "b\x7d".toList ∧
      parse "\\textbf\x7ba b\x7d".toList = strong ∧
      parse "\\textbf\x7ba\nb\x7d".toList = ⟨[.paragraph [.text "\\textbf\x7ba b\x7d"]]⟩ ∧
      parse "\\textbf\x7ba\nb\x7d".toList ≠ parse "\\textbf\x7ba b\x7d".toList := by
  intro strong
  have h : Expressible strong := by decide
  have hs : SpaceBetween (print {} strong) "\\textbf\x7ba".toList "b\x7d".toList := by decide
  have hwhole : parse "\\textbf\x7ba b\x7d".toList = strong := parse_printInlines h
  have hsecond : segments ["b\x7d".toList] = [.text "b\x7d".toList] := by
    rw [segments_trimmed (by decide) (by decide) (by decide) (by decide), segments]
  have hbreak := parse_break h hs
  rw [hsecond, assemble, assemble] at hbreak
  have hwrapped : parse "\\textbf\x7ba\nb\x7d".toList =
      ⟨[.paragraph [.text "\\textbf\x7ba b\x7d"]]⟩ := by
    refine hbreak.trans ?_
    decide +kernel
  refine ⟨h, hs, hwhole, hwrapped, ?_⟩
  rw [hwrapped, hwhole]
  decide

end Interdoc.Latex

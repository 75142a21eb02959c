import Interdoc.Markdown.Parser
import Interdoc.Proofs.Markdown.UnderlinedText

/-!
# Text of raw HTML blocks

What a raw HTML block has to say stands outside its comments (`shown`).  A block is taken for a
comment if it begins and ends like one (`IsFramed`), and then it has no blocks, although several
comments can stand in it with text between them (`readDocument_between_comments`).  All other blocks
that are not blank become a paragraph with all that they show, in order (`KeepsText`); only the tags
of underlining around a block become underlining.  So text is lost exactly from framed blocks that
show something (`blocksOfHtml_keeps_text_iff`).
-/

namespace Interdoc.Markdown

open Interdoc (Inline)
open Text (visible toLower trim trimRight)

/-! ### Comments -/

/-- The length of the comment at the start of a text, if there is one.  A comment ends with the
first end mark, which may share its hyphens with the mark at the start. -/
def commentLength? (s : List Char) : Option Nat :=
  if Text.startsWith "<!--".toList s then
    (Text.splitOnce? "-->".toList (s.drop 2)).map fun (before, _) => before.length + 5
  else none

/-- A text without its comments.  The number is that of the characters that still belong to the
comment found last. -/
def outsideFrom : (skip : Nat) → List Char → List Char
  | _, [] => []
  | skip + 1, _ :: s => outsideFrom skip s
  | 0, c :: s =>
    match commentLength? (c :: s) with
    | some n => outsideFrom (n - 1) s
    | none => c :: outsideFrom 0 s

/-- What a raw HTML text shows: the characters outside complete comments that are no blanks. -/
def shown (literal : List Char) : List Char :=
  (outsideFrom 0 literal).filter fun c => !Text.isBlankChar c

theorem outsideFrom_sublist (skip : Nat) (s : List Char) : (outsideFrom skip s).Sublist s := by
  fun_induction outsideFrom skip s with
  | case1 => exact .slnil
  | case2 skip c s ih => exact ih.cons c
  | case3 c s n _ ih => exact ih.cons c
  | case4 c s _ ih => exact ih.cons_cons c

/-- What is shown is among the visible characters, in their order. -/
theorem shown_sublist (literal : List Char) :
    (shown literal).Sublist (visible (String.ofList literal)) := by
  rw [visible, String.toList_ofList]
  exact (outsideFrom_sublist 0 literal).filter _

/-! ### Blocks -/

/-- A text begins and ends with the marks of a comment, blanks at its end left out of account. -/
def IsFramed (literal : List Char) : Prop :=
  "<!--".toList <+: trimRight literal ∧ "-->".toList <:+ trimRight literal

/-- Inlines keep the text of raw HTML: what it shows is in their plain text, in order.  If both tags
of underlining are around it, it is underlined instead and all that is between the tags is kept; a
single opening tag is kept in its usual spelling. -/
def KeepsText (literal : List Char) (inlines : List Inline) : Prop :=
  (shown literal).Sublist (Inline.plainTextList inlines).toList ∨
  (∃ before after inner, inlines = [.underline inner] ∧ toLower before = openTag ∧
    toLower after = closeTag ∧
    trim literal = before ++ (Inline.plainTextList inlines).toList ++ after) ∨
  (inlines = [.text (String.ofList openTag)] ∧ toLower (trim literal) = openTag)

theorem isDropped_iff (literal : List Char) :
    ((trimRight literal).isEmpty || Text.startsWith "<!--".toList (trimRight literal) &&
        (Text.stripSuffix? "-->".toList (trimRight literal)).isSome) = true ↔
      Text.isBlank literal = true ∨ IsFramed literal := by
  rw [Bool.or_eq_true, List.isEmpty_iff, Text.trimRight_eq_nil_iff, Bool.and_eq_true,
    Text.startsWith_iff, Option.isSome_iff_exists, IsFramed]
  refine or_congr_right (and_congr_right fun _ => exists_congr fun before => ?_)
  rw [Text.stripSuffix?_eq_some_iff, eq_comm]

theorem blocksOfHtml_of_dropped {literal : List Char}
    (h : Text.isBlank literal = true ∨ IsFramed literal) : blocksOfHtml literal = [] :=
  if_pos ((isDropped_iff literal).mpr h)

theorem blocksOfHtml_of_kept {literal : List Char}
    (h : ¬ (Text.isBlank literal = true ∨ IsFramed literal)) : blocksOfHtml literal =
      [.paragraph (resolveUnderline [.raw (String.ofList (trimRight literal))])] :=
  if_neg (mt (isDropped_iff literal).mp h)

theorem blocksOfHtml_eq_nil_iff (literal : List Char) :
    blocksOfHtml literal = [] ↔ Text.isBlank literal = true ∨ IsFramed literal := by
  refine ⟨fun h => ?_, blocksOfHtml_of_dropped⟩
  by_contra hkept
  rw [blocksOfHtml_of_kept hkept] at h
  cases h

theorem shown_of_isBlank {literal : List Char} (h : Text.isBlank literal = true) :
    shown literal = [] := by
  have hvisible : visible (String.ofList literal) = [] :=
    Text.visible_of_isBlank (by rwa [String.toList_ofList])
  exact List.sublist_nil.mp (hvisible ▸ shown_sublist literal)

/-! ### Tags of underlining -/

theorem trim_trimRight (s : List Char) : trim (trimRight s) = trim s := by
  rw [trim, Text.trimLeft_trimRight, Text.trimRight_eq_self (Text.solidLast_trim s)]

/-- The plain text of a text by itself has all that the text shows. -/
theorem keepsText_text (literal : List Char) :
    KeepsText literal [.text (String.ofList (trimRight literal))] := by
  refine .inl ?_
  have hplain : Inline.plainTextList [.text (String.ofList (trimRight literal))] =
      String.ofList (trimRight literal) := by
    rw [Inline.plainTextList, Inline.plainTextList, Inline.plainText, String.append_empty]
  rw [hplain]
  refine (shown_sublist literal).trans ?_
  rw [← Text.visible_ofList_trimRight, visible]
  exact List.filter_sublist

theorem keepsText_resolveUnderline (literal : List Char) :
    KeepsText literal (resolveUnderline [.raw (String.ofList (trimRight literal))]) := by
  have hstep : resolveUnderline [.raw (String.ofList (trimRight literal))] =
      match RawKind.ofRaw (trimRight literal) with
      | .opening => [.text (String.ofList openTag)]
      | .wrapped inner => [.underline [.text (String.ofList inner)]]
      | .closing | .opaqueText => [.text (String.ofList (trimRight literal))] := by
    rw [resolveUnderline, List.foldl_cons, List.foldl_nil, Pairing.step, String.toList_ofList]
    cases RawKind.ofRaw (trimRight literal) <;> rfl
  -- an opening tag alone stays as a text, but in small letters and without the blanks around it
  rw [hstep]
  cases hkind : RawKind.ofRaw (trimRight literal) with
  | opening =>
    have hlower := toLower_trim_of_opening hkind
    rw [trim_trimRight] at hlower
    exact .inr (.inr ⟨rfl, hlower⟩)
  | wrapped inner =>
    obtain ⟨before, after, htrim, hbefore, hafter⟩ := exists_tags_of_wrapped hkind
    rw [trim_trimRight] at htrim
    refine .inr (.inl ⟨before, after, _, rfl, hbefore, hafter, ?_⟩)
    have hplain : Inline.plainTextList [.underline [.text (String.ofList inner)]] =
        String.ofList inner := by
      simp only [Inline.plainTextList, Inline.plainText, String.append_empty]
    rw [hplain, String.toList_ofList, htrim]
  | closing => exact keepsText_text literal
  | opaqueText => exact keepsText_text literal

/-! ### What is kept -/

/-- **Raw HTML blocks keep what they show, except between comments.**  A block is dropped exactly if
it is blank or framed.  It is dropped only without anything to show, and keeps what it shows, if and
only if it is not framed with something to show. -/
theorem blocksOfHtml_keeps_text_iff (literal : List Char) :
    (blocksOfHtml literal = [] ↔ Text.isBlank literal = true ∨ IsFramed literal) ∧
    (((blocksOfHtml literal = [] → shown literal = []) ∧
        (shown literal ≠ [] → ∃ inlines, blocksOfHtml literal = [.paragraph inlines] ∧
          KeepsText literal inlines)) ↔
      ¬ (IsFramed literal ∧ shown literal ≠ [])) := by
  refine ⟨blocksOfHtml_eq_nil_iff literal, ?_⟩
  constructor
  · rintro ⟨hdropped, -⟩ ⟨hframed, hshown⟩
    exact hshown (hdropped (blocksOfHtml_of_dropped (.inr hframed)))
  · intro h
    rw [not_and, not_not] at h
    constructor
    · intro hdropped
      exact ((blocksOfHtml_eq_nil_iff literal).mp hdropped).elim shown_of_isBlank h
    · intro hshown
      have hkept : ¬ (Text.isBlank literal = true ∨ IsFramed literal) := fun hdropped =>
        hshown (hdropped.elim shown_of_isBlank h)
      exact ⟨_, blocksOfHtml_of_kept hkept, keepsText_resolveUnderline literal⟩

/-- **Text between two comments is lost.** -/
theorem readDocument_between_comments :
    Outline.ofText "<!-- a --> text <!-- b -->".toList =
        ([.html "<!-- a --> text <!-- b -->\n".toList], []) ∧
      IsFramed "<!-- a --> text <!-- b -->\n".toList ∧
      shown "<!-- a --> text <!-- b -->\n".toList = "text".toList ∧
      readDocument "<!-- a --> text <!-- b -->".toList = ⟨[]⟩ := by
  refine ⟨rfl, ⟨by decide, by decide⟩, by decide +kernel, by decide +kernel⟩

end Interdoc.Markdown

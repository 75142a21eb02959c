import Interdoc.Document.PlainText
import Interdoc.Proofs.Document.OneLine
import Interdoc.Proofs.Text.Trim
import Mathlib.Data.List.Flatten

/-!
# Visible text

The characters of a text that are not blanks are `visible`.  A format that breaks lines anew and
trims what it reads may change blanks, but it loses nothing if the visible characters of the plain
text stay the same, in the same order.

Plain text puts nothing but blanks between blocks, items and cells, so the visible characters of a
container are those of its parts one after the other (`visible_plainText_list` and its relatives).
-/

namespace Interdoc

namespace Text

/-- The characters of a string that are not blanks. -/
def visible (s : String) : List Char :=
  s.toList.filter fun c => !isBlankChar c

theorem visible_append (s t : String) : visible (s ++ t) = visible s ++ visible t := by
  rw [visible, String.toList_append, List.filter_append]
  rfl

theorem visible_of_isBlank {s : String} (h : isBlank s.toList = true) : visible s = [] := by
  rw [visible, List.filter_eq_nil_iff]
  intro c hc
  simp [isBlank_iff.mp h c hc]

/-- Blanks between strings are not visible. -/
theorem visible_intercalate {sep : String} (h : isBlank sep.toList = true) (ss : List String) :
    visible (sep.intercalate ss) = ss.flatMap visible := by
  induction ss with
  | nil => rfl
  | cons s ss ih =>
    cases ss with
    | nil => simp [String.intercalate_singleton]
    | cons t ss =>
      rw [String.intercalate_cons_cons, visible_append, visible_append, visible_of_isBlank h, ih,
        List.append_nil]
      rfl

theorem visible_ofList_trimLeft (s : List Char) :
    visible (String.ofList (trimLeft s)) = visible (String.ofList s) := by
  obtain ⟨w, hw, hs⟩ := exists_blank_append_trimLeft s
  have hv : visible (String.ofList w) = [] := visible_of_isBlank (by rwa [String.toList_ofList])
  conv => rhs; rw [← hs]
  rw [String.ofList_append, visible_append, hv, List.nil_append]

theorem visible_ofList_trimRight (s : List Char) :
    visible (String.ofList (trimRight s)) = visible (String.ofList s) := by
  obtain ⟨w, hw, hs⟩ := exists_trimRight_append_blank s
  have hv : visible (String.ofList w) = [] := visible_of_isBlank (by rwa [String.toList_ofList])
  conv => rhs; rw [← hs]
  rw [String.ofList_append, visible_append, hv, List.append_nil]

theorem visible_spaceEnds (s : String) : visible (spaceEnds s) = visible s := by
  rw [visible, visible, spaceEnds, String.toList_ofList]
  induction s.toList with
  | nil => rfl
  | cons c s ih =>
    by_cases h : c = '\n' ∨ c = '\r'
    · have hc : isBlankChar c = true := by rcases h with rfl | rfl <;> decide
      rw [List.map_cons, spaceEnd, if_pos h, List.filter_cons_of_neg (by decide), ih,
        List.filter_cons_of_neg (by simp [hc])]
    · rw [List.map_cons, spaceEnd, if_neg h, List.filter_cons, List.filter_cons, ih]

/-- Where something may be left out of each part, nothing is left out of the whole if and only if
nothing is left out of any part. -/
theorem flatMap_eq_flatMap_iff_of_sublist {α β : Type} {f g : α → List β} {parts : List α}
    (h : ∀ a ∈ parts, (f a).Sublist (g a)) :
    parts.flatMap f = parts.flatMap g ↔ ∀ a ∈ parts, f a = g a := by
  constructor
  · intro heq
    induction parts with
    | nil => simp
    | cons a parts ih =>
      rw [List.forall_mem_cons] at h ⊢
      rw [List.flatMap_cons, List.flatMap_cons] at heq
      -- neither the first part nor the rest can get longer, so neither gets shorter
      have hlength := congrArg List.length heq
      have hfirst := h.1.length_le
      have hrest := (List.Sublist.flatMap_right parts h.2).length_le
      rw [List.length_append, List.length_append] at hlength
      have ha : f a = g a := h.1.eq_of_length (by omega)
      rw [ha, List.append_cancel_left_eq] at heq
      exact ⟨ha, ih h.2 heq⟩
  · intro heq
    exact List.flatMap_congr heq

end Text

namespace Inline

theorem visible_plainTextList_cons (i : Inline) (rest : List Inline) :
    Text.visible (plainTextList (i :: rest))
      = Text.visible (plainText i) ++ Text.visible (plainTextList rest) := by
  rw [plainTextList, Text.visible_append]

theorem visible_plainTextList_append (xs ys : List Inline) :
    Text.visible (plainTextList (xs ++ ys))
      = Text.visible (plainTextList xs) ++ Text.visible (plainTextList ys) := by
  induction xs with
  | nil => rfl
  | cons i xs ih =>
    rw [List.cons_append, visible_plainTextList_cons, ih, visible_plainTextList_cons,
      List.append_assoc]

mutual

theorem visible_spaceEnds : ∀ i : Inline,
    Text.visible (plainText i.spaceEnds) = Text.visible (plainText i)
  | .strong xs => by rw [spaceEnds, plainText, plainText, visible_spaceEndsList xs]
  | .emphasis xs => by rw [spaceEnds, plainText, plainText, visible_spaceEndsList xs]
  | .underline xs => by rw [spaceEnds, plainText, plainText, visible_spaceEndsList xs]
  | .link href xs => by rw [spaceEnds, plainText, plainText, visible_spaceEndsList xs]
  | .text s => by rw [spaceEnds, plainText, plainText, Text.visible_spaceEnds]
  | .code s => by rw [spaceEnds, plainText, plainText, Text.visible_spaceEnds]
  | .lineBreak => by rw [spaceEnds]
  | .image src none => by rw [spaceEnds, plainText, plainText, Option.map_none]
  | .image src (some alt) => by
    rw [spaceEnds, plainText, plainText, Option.map_some, Option.getD_some, Option.getD_some,
      Text.visible_spaceEnds]

/-- Line endings are as little visible as spaces. -/
theorem visible_spaceEndsList : ∀ xs : List Inline,
    Text.visible (plainTextList (spaceEndsList xs)) = Text.visible (plainTextList xs)
  | [] => rfl
  | i :: rest => by
    rw [spaceEndsList, visible_plainTextList_cons, visible_plainTextList_cons, visible_spaceEnds i,
      visible_spaceEndsList rest]

end

end Inline

namespace Block

/-! ### Containers -/

/-- The visible characters of blocks, one after the other. -/
def visibleText (blocks : List Block) : List Char :=
  blocks.flatMap fun b => Text.visible b.plainText

theorem visibleText_cons (b : Block) (blocks : List Block) :
    visibleText (b :: blocks) = Text.visible b.plainText ++ visibleText blocks :=
  List.flatMap_cons

theorem visibleText_append (bs cs : List Block) :
    visibleText (bs ++ cs) = visibleText bs ++ visibleText cs :=
  List.flatMap_append

theorem flatMap_plainTexts (blocks : List Block) :
    (plainTexts blocks).flatMap Text.visible = visibleText blocks := by
  induction blocks with
  | nil => rfl
  | cons b blocks ih => rw [plainTexts, List.flatMap_cons, ih, visibleText_cons]

theorem flatMap_plainTextsOfItems (items : List (List Block)) :
    (plainTextsOfItems items).flatMap Text.visible = items.flatMap visibleText := by
  induction items with
  | nil => rfl
  | cons blocks items ih =>
    rw [plainTextsOfItems, List.flatMap_cons, ih, Text.visible_intercalate (by decide),
      flatMap_plainTexts, List.flatMap_cons]

theorem flatMap_plainTextsOfRows (rows : List (List (List Block))) :
    (plainTextsOfRows rows).flatMap Text.visible
      = rows.flatMap fun cells => cells.flatMap visibleText := by
  induction rows with
  | nil => rfl
  | cons cells rows ih =>
    rw [plainTextsOfRows, List.flatMap_cons, ih, Text.visible_intercalate (by decide),
      flatMap_plainTextsOfItems, List.flatMap_cons]

theorem visible_plainText_quote (blocks : List Block) :
    Text.visible (plainText (.quote blocks)) = visibleText blocks := by
  rw [plainText, Text.visible_intercalate (by decide), flatMap_plainTexts]

theorem visible_plainText_list (ordered : Bool) (items : List (List Block)) :
    Text.visible (plainText (.list ordered items)) = items.flatMap visibleText := by
  rw [plainText, Text.visible_intercalate (by decide), flatMap_plainTextsOfItems]

theorem visible_plainText_table (header : Option (List (List Block)))
    (rows : List (List (List Block))) (alignments : Option (List Alignment)) :
    Text.visible (plainText (.table header rows alignments))
      = (header.toList ++ rows).flatMap fun cells => cells.flatMap visibleText := by
  cases header with
  | none =>
    rw [plainText, Text.visible_intercalate (by decide), flatMap_plainTextsOfRows]
    rfl
  | some cells =>
    rw [plainText, Text.visible_intercalate (by decide), List.flatMap_cons,
      Text.visible_intercalate (by decide), flatMap_plainTextsOfItems, flatMap_plainTextsOfRows]
    rfl

end Block

/-- The visible characters of a document: those of the plain text of its blocks, one after the
other. -/
def Document.visibleText (d : Document) : List Char :=
  Block.visibleText d.blocks

end Interdoc

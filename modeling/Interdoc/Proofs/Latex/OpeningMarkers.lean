import Interdoc.Proofs.Latex.ItemPartition
import Interdoc.Proofs.Latex.Offset.Closing
import Mathlib.Algebra.Order.BigOperators.Group.List
import Mathlib.Algebra.Order.Group.Nat

/-!
# Opening markers

What an environment hands on to be read again is put together anew: the rest of the opening line
before the body, what stands before a marker, what follows it, the lines of an item.  None of these
texts has an opening marker that the lines do not have, and the marker of the environment itself is
gone (`openings_lt_of_opening?`).  So whatever is read again has strictly fewer opening markers than
the lines that hold it, whatever the environment is and however it ends.
-/

namespace Interdoc.Latex

open Text (occurrences occurrences_append_le occurrences_le_of_isInfix)

/-! ### Opening markers -/

/-- The number of places in lines at which an opening marker begins, of whatever name. -/
def openings (lines : List Line) : Nat :=
  (lines.map (occurrences openingCommand)).sum

/-- The number of opening markers in what an environment may hand on. -/
def Environment.openings (e : Environment) : Nat :=
  occurrences openingCommand e.opening + Latex.openings e.body +
    occurrences openingCommand e.trailing

@[simp]
theorem openings_nil : openings [] = 0 := rfl

@[simp]
theorem openings_cons (line : Line) (lines : List Line) :
    openings (line :: lines) = occurrences openingCommand line + openings lines := by
  rw [openings, List.map_cons, List.sum_cons, openings]

theorem occurrences_trim_le (line : List Char) :
    occurrences openingCommand (Text.trim line) ≤ occurrences openingCommand line :=
  occurrences_le_of_isInfix (Text.trim_isInfix line)

theorem significant_isInfix (raw : Line) : significant raw <:+: raw :=
  ((Text.trim_isInfix _).trans (stripComment_isPrefix _).isInfix).trans (Text.trim_isInfix raw)

/-- What stands on both sides of a closing marker. -/
theorem occurrences_closed {name before after line : List Char} {depth : Nat}
    (h : scanClose name depth 0 line = .closed before after) :
    occurrences openingCommand before + occurrences openingCommand after ≤
      occurrences openingCommand line := by
  have hfront := occurrences_append_le openingCommand before (closingMarker name ++ after)
  have hback := occurrences_append_le openingCommand (closingMarker name) after
  rw [scanClose_eq_closed h]
  omega

/-- The opening marker itself is gone. -/
theorem occurrences_lt_of_opening? {line name after : List Char}
    (h : opening? line = some (name, after)) :
    occurrences openingCommand after < occurrences openingCommand line := by
  have hline : line = openingCommand ++ (name ++ '\x7d' :: after) :=
    (opening?_eq_some h).trans (openingMarker_append name after)
  have hmarker := Text.lt_occurrences_append (p := openingCommand) (s := name ++ '\x7d' :: after)
    (List.cons_ne_nil _ _)
  have hsuffix : after <:+ name ++ '\x7d' :: after := ⟨name ++ ['\x7d'], by simp⟩
  have hafter := occurrences_le_of_isInfix (p := openingCommand) hsuffix.isInfix
  rw [hline]
  omega

/-! ### Environments -/

theorem openings_collectBody (name : List Char) (depth : Nat) (lines : List Line) :
    openings (collectBody name depth lines).body +
        occurrences openingCommand (collectBody name depth lines).trailing +
        openings (collectBody name depth lines).rest ≤ openings lines := by
  induction lines generalizing depth with
  | nil => exact le_rfl
  | cons line lines ih =>
    -- a closing marker cuts its line, and cutting makes no new markers
    cases hs : scanClose name depth 0 line with
    | stillOpen during =>
      have hrest := ih during
      rw [collectBody, hs]
      simp only [openings_cons]
      omega
    | closed before after =>
      have hsides := occurrences_closed hs
      have htrim := occurrences_trim_le after
      rw [collectBody, hs]
      simp only [openings_cons]
      split
      · rw [openings_nil]
        omega
      · rw [openings_cons, openings_nil]
        omega

/-- An environment and the lines behind it have no opening marker but those of the lines. -/
theorem openings_collect (name opening : List Char) (lines : List Line) :
    (collect name opening lines).1.openings + openings (collect name opening lines).2 ≤
      occurrences openingCommand opening + openings lines := by
  cases hs : scanClose name 0 0 opening with
  | closed before after =>
    have hsides := occurrences_closed hs
    have htrim := occurrences_trim_le after
    rw [collect, hs]
    simp only [Environment.openings, openings_nil]
    omega
  | stillOpen depth =>
    have hbody := openings_collectBody name depth lines
    rw [collect, hs]
    simp only [Environment.openings]
    omega

/-- **An environment** has fewer opening markers left than the lines that hold it. -/
theorem openings_lt_of_opening? {raw : Line} {name opening : List Char}
    (h : opening? (significant raw) = some (name, opening)) (lines : List Line) :
    (collect name opening lines).1.openings + openings (collect name opening lines).2 <
      openings (raw :: lines) := by
  have hraw := occurrences_le_of_isInfix (p := openingCommand) (significant_isInfix raw)
  have hmarker := occurrences_lt_of_opening? h
  have hcollect := openings_collect name opening lines
  rw [openings_cons]
  omega

theorem openings_lt_of_mem_segments {e : Environment} {lines : List Line}
    (h : .environment e ∈ segments lines) : e.openings < openings lines := by
  fun_induction segments lines with
  | case1 => cases h
  | case2 raw lines _ ih =>
    have hlt := ih h
    rw [openings_cons]
    omega
  | case3 raw lines line _ _ ih | case4 raw lines line _ _ level title _ ih
  | case5 raw lines line _ _ _ _ ih | case7 raw lines line _ _ _ _ _ ih =>
    have hlt := ih (by simpa using h)
    rw [openings_cons]
    omega
  | case6 raw lines line _ _ _ _ name opening hopening ih =>
    have hfewer := openings_lt_of_opening? hopening lines
    rcases List.mem_cons.mp h with he | h
    · cases he
      omega
    · have hlt := ih h
      omega

theorem openings_le_of_isSuffix {lines rest : List Line} (h : rest <:+ lines) :
    openings rest ≤ openings lines := by
  obtain ⟨front, rfl⟩ := h
  rw [openings, openings, List.map_append, List.sum_append]
  exact Nat.le_add_left _ _

theorem openings_lines (e : Environment) : openings e.lines ≤ e.openings := by
  have htrim := occurrences_trim_le e.opening
  rw [Environment.lines, Environment.openings]
  split
  · omega
  · rw [openings_cons]
    omega

/-! ### Items -/

theorem occurrences_item? {line first : Line} (h : item? (Text.trim line) = some first) :
    occurrences openingCommand first ≤ occurrences openingCommand line := by
  refine occurrences_le_of_isInfix (List.IsInfix.trans ?_ (Text.trim_isInfix line))
  unfold item? at h
  split at h
  · next rest hrest =>
    split at h
    · cases h
    · cases h
      have hsuffix : rest <:+ Text.trim line := ⟨_, (Text.stripPrefix?_eq_some_iff.mp hrest).symm⟩
      exact (((List.dropWhile_suffix _).trans (Offset.skipBracketed_isSuffix rest)).trans
        hsuffix).isInfix
  · cases h

theorem openings_splitItems (depth : Nat) (lines : List Line) :
    openings (splitItems depth lines).1 + ((splitItems depth lines).2.map openings).sum ≤
      openings lines := by
  induction lines generalizing depth with
  | nil => exact le_rfl
  | cons line lines ih =>
    have hrest := ih (depthAfter depth (Text.trim line))
    rw [splitItems, openings_cons]
    dsimp only
    split
    · next first hfirst =>
      split at hfirst
      · have hmarker := occurrences_item? hfirst
        simp only [List.map_cons, List.sum_cons, openings_cons, openings_nil]
        omega
      · cases hfirst
    · simp only [openings_cons]
      omega

/-- An item has no opening marker but those of the body. -/
theorem openings_le_of_mem_itemLines {body item : List Line} (h : item ∈ itemLines body) :
    openings item ≤ openings body := by
  have hsplit := openings_splitItems 0 body
  have hmem {items : List (List Line)} (h : item ∈ items) :
      openings item ≤ (items.map openings).sum :=
    List.le_sum_of_mem (List.mem_map_of_mem h)
  rw [itemLines] at h
  dsimp only at h
  split at h
  · have hle := hmem h
    omega
  · rcases List.mem_cons.mp h with rfl | h
    · omega
    · have hle := hmem h
      omega

end Interdoc.Latex

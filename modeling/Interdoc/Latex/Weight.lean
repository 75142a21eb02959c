import Interdoc.Latex.Command
import Interdoc.Latex.Item

/-!
# Weights

The weight of a sequence of lines is the number of its characters and lines.  Whatever is taken out
of an environment to be read again weighs less than the lines that hold the environment, since its
opening marker is gone.  This is why reading blocks ends.
-/

namespace Interdoc.Latex

/-- The lines of an environment, among them what follows the opening marker unless it is blank. -/
def Environment.lines (e : Environment) : List Line :=
  let first := Text.trim e.opening
  if first.isEmpty then e.body else first :: e.body

/-- The number of characters and lines. -/
def weight (lines : List Line) : Nat :=
  lines.foldr (fun line n => line.length + 1 + n) 0

/-- The weight of what is read again in an environment. -/
def Environment.weight (e : Environment) : Nat :=
  e.opening.length + Latex.weight e.body + e.trailing.length + 4

/-- The weight of what is read again in a segment. -/
def Segment.weight : Segment → Nat
  | .environment e => e.weight
  | _ => 0

/-- The weight of a sequence of segments. -/
def segmentsWeight (segs : List Segment) : Nat :=
  segs.foldr (fun s n => s.weight + 1 + n) 0

@[simp]
theorem weight_nil : weight [] = 0 := rfl

@[simp]
theorem weight_cons (line : Line) (lines : List Line) :
    weight (line :: lines) = line.length + 1 + weight lines := by
  simp [weight]

theorem length_stripComment (s : List Char) : (stripComment s).length ≤ s.length := by
  fun_induction stripComment s <;> simp_all

theorem length_significant (s : List Char) : (significant s).length ≤ s.length := by
  have h₁ := Command.length_trim (stripComment (Text.trim s))
  have h₂ := length_stripComment (Text.trim s)
  have h₃ := Command.length_trim s
  unfold significant
  omega

theorem length_stripPrefix? {p s rest : List Char} (h : Text.stripPrefix? p s = some rest) :
    p.length + rest.length = s.length := by
  induction p generalizing s with
  | nil => simp only [Text.stripPrefix?, Option.some.injEq] at h; subst h; simp
  | cons a p ih =>
    cases s with
    | nil => simp [Text.stripPrefix?] at h
    | cons b s =>
      unfold Text.stripPrefix? at h
      split at h
      · have := ih h; simp; omega
      · simp at h

theorem length_scanClose {name before after s : List Char} {depth skip : Nat}
    (h : scanClose name depth skip s = .closed before after) :
    before.length + after.length + (closingMarker name).length ≤ s.length := by
  induction s generalizing depth skip before after with
  | nil => simp [scanClose] at h
  | cons c s ih =>
    -- a character is passed in front of what the rest is cut into
    have step {depth skip : Nat} (h : (scanClose name depth skip s).cons c = .closed before after) :
        before.length + after.length + (closingMarker name).length ≤ (c :: s).length := by
      cases hs : scanClose name depth skip s with
      | stillOpen d => simp [hs, CloseScan.cons] at h
      | closed b a =>
        have := ih hs
        simp only [hs, CloseScan.cons, CloseScan.closed.injEq] at h
        obtain ⟨rfl, rfl⟩ := h
        simp
        omega
    cases skip with
    | succ skip => exact step h
    | zero =>
      unfold scanClose at h
      split at h
      · exact step h
      · split at h
        · next after' hp =>
          have := length_stripPrefix? hp
          simp only [CloseScan.closed.injEq] at h
          obtain ⟨rfl, rfl⟩ := h
          simp at this ⊢
          omega
        · exact step h
        · exact step h

theorem length_closingMarker (name : List Char) : 6 ≤ (closingMarker name).length := by
  simp [closingMarker]

theorem weight_collectBody (name : List Char) (depth : Nat) (lines : List Line) :
    weight (collectBody name depth lines).body + (collectBody name depth lines).trailing.length +
      weight (collectBody name depth lines).rest ≤ weight lines := by
  induction lines generalizing depth with
  | nil => simp [collectBody]
  | cons line lines ih =>
    unfold collectBody
    split
    · next depth' _ => have := ih depth'; simp only [weight_cons]; omega
    · next before after hs =>
      have h₁ := length_scanClose hs
      have h₂ := Command.length_trim after
      have h₃ := length_closingMarker name
      simp only [weight_cons]
      split
      · simp only [weight_nil]; omega
      · simp only [weight_cons, weight_nil]; omega

theorem weight_collect (name opening : List Char) (lines : List Line) :
    (collect name opening lines).1.weight + weight (collect name opening lines).2 ≤
      opening.length + weight lines + 4 := by
  unfold collect
  split
  · next before after hs =>
    have h₁ := length_scanClose hs
    have h₂ := Command.length_trim after
    simp only [Environment.weight, weight_nil]
    omega
  · next depth _ =>
    have := weight_collectBody name depth lines
    simp only [Environment.weight]
    omega

theorem length_opening? {line name after : List Char} (h : opening? line = some (name, after)) :
    after.length + 8 < line.length := by
  unfold opening? at h
  split at h
  · simp at h
  · next rest hp =>
    have h₁ := length_stripPrefix? hp
    have h₂ := (List.dropWhile_sublist (· != '\x7d') (l := rest)).length_le
    have h₄ := congrArg List.length
      (List.takeWhile_append_dropWhile (p := (· != '\x7d')) (l := rest))
    simp only [List.length_append] at h₄
    split at h
    · simp at h
    · next d after' hd =>
      dsimp only at h
      split at h
      · simp at h
      · next hne =>
        simp only [Option.some.injEq, Prod.mk.injEq] at h
        obtain ⟨rfl, rfl⟩ := h
        have h₃ : "\\begin\x7b".toList.length = 7 := by simp
        have h₅ : 0 < (List.takeWhile (· != '\x7d') rest).length := by
          cases ht : List.takeWhile (· != '\x7d') rest with
          | nil => simp [ht] at hne
          | cons => simp
        rw [hd] at h₂ h₄
        simp only [List.length_cons] at h₂ h₄
        omega

theorem segmentsWeight_cons (seg : Segment) (segs : List Segment) :
    segmentsWeight (seg :: segs) = seg.weight + 1 + segmentsWeight segs := by
  simp [segmentsWeight]

theorem segmentsWeight_segments (lines : List Line) :
    segmentsWeight (segments lines) ≤ weight lines := by
  fun_induction segments lines with
  | case1 => simp [segmentsWeight]
  | case2 raw lines hc ih => rw [weight_cons]; omega
  | case3 raw lines line hc hg ih =>
    simp only [segmentsWeight_cons, weight_cons, Segment.weight]
    omega
  | case4 raw lines line hc hg level title hh ih =>
    simp only [segmentsWeight_cons, weight_cons, Segment.weight]; omega
  | case5 raw lines line hc hg hh hr ih =>
    simp only [segmentsWeight_cons, weight_cons, Segment.weight]; omega
  | case6 raw lines line hc hg hh hr name opening ho ih =>
    have h₁ := weight_collect name opening lines
    have h₂ := length_opening? ho
    have h₃ := length_significant raw
    simp only [segmentsWeight_cons, weight_cons, Segment.weight]
    simp only [line] at h₂
    omega
  | case7 raw lines line hc hg hh hr ho ih =>
    simp only [segmentsWeight_cons, weight_cons, Segment.weight]; omega

theorem weight_lines (e : Environment) : weight e.lines + 1 < e.weight := by
  have := Command.length_trim e.opening
  unfold Environment.lines Environment.weight
  dsimp only
  split
  · omega
  · rw [weight_cons]; omega

theorem weight_trailing (e : Environment) : weight [e.trailing] + 1 < e.weight := by
  simp only [Environment.weight, weight_cons, weight_nil]
  omega

/-- The weight of a list of items. -/
def itemsWeight (items : List (List Line)) : Nat :=
  items.foldr (fun lines n => weight lines + 1 + n) 0

@[simp]
theorem itemsWeight_nil : itemsWeight [] = 0 := rfl

@[simp]
theorem itemsWeight_cons (lines : List Line) (items : List (List Line)) :
    itemsWeight (lines :: items) = weight lines + 1 + itemsWeight items := by
  simp [itemsWeight]

theorem length_item? {line first : Line} (h : item? line = some first) :
    first.length + 5 ≤ line.length := by
  unfold item? at h
  split at h
  · next rest hp =>
    have h₁ := length_stripPrefix? hp
    have h₂ := length_skipBracketed rest
    have h₃ : (Text.trimLeft (skipBracketed rest)).length ≤ (skipBracketed rest).length :=
      (List.dropWhile_sublist Text.isBlankChar (l := skipBracketed rest)).length_le
    have h₄ : "\\item".toList.length = 5 := by simp
    split at h
    · simp at h
    · simp only [Option.some.injEq] at h
      subst h
      omega
  · simp at h

theorem weight_splitItems (depth : Nat) (lines : List Line) :
    weight (splitItems depth lines).1 + itemsWeight (splitItems depth lines).2 ≤ weight lines := by
  induction lines generalizing depth with
  | nil => simp [splitItems]
  | cons line lines ih =>
    have h₁ := ih (depthAfter depth (Text.trim line))
    have h₂ := Command.length_trim line
    unfold splitItems
    dsimp only
    split
    · next first hf =>
      split at hf
      · have := length_item? hf
        simp only [weight_nil, weight_cons, itemsWeight_cons]
        omega
      · simp at hf
    · simp only [weight_cons]
      omega

theorem itemsWeight_itemLines (body : List Line) :
    itemsWeight (itemLines body) ≤ weight body + 1 := by
  have := weight_splitItems 0 body
  unfold itemLines
  dsimp only
  split
  · omega
  · simp only [itemsWeight_cons]; omega

end Interdoc.Latex

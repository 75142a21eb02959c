import Interdoc.Proofs.Latex.Language
import Interdoc.Proofs.Text.Occurrences

/-!
# The lines of items

The items of a list divide the lines of its body.  A line begins an item if no environment is open
before it (`openBehind`) and the command of an item stands at its start (`CutsMarker`); the lines
before the first such line are an item of their own unless they are all blank.

`splitItems` goes through the lines from the last to the first.  Two facts say all about it: put
together again, its parts are the lines, cut where they begin an item (`flatten_splitItems`), and an
item starts at a place exactly if the line there begins one (`startsAt_splitItems`).
-/

namespace Interdoc.Latex

/-! ### Open environments -/

/-- The beginning of all markers that open an environment. -/
def openingCommand : List Char := "\\begin\x7b".toList

/-- The beginning of all markers that close an environment. -/
def closingCommand : List Char := "\\end\x7b".toList

/-- The number of environments that are open behind lines if `depth` are open before them.  What a
line opens is counted before what it closes, and the number never falls below zero. -/
def openBehind (depth : Nat) (lines : List Line) : Nat :=
  lines.foldl (fun depth line =>
    depth + Text.occurrences openingCommand line - Text.occurrences closingCommand line) depth

theorem openBehind_cons (depth : Nat) (line : Line) (lines : List Line) :
    openBehind depth (line :: lines) = openBehind (depthAfter depth (Text.trim line)) lines := by
  have hopen : Text.count openingCommand (Text.trim line) =
      Text.occurrences openingCommand line := by
    have htail : '\\' ∉ "begin\x7b".toList := by decide
    exact (Text.count_eq_occurrences htail _).trans (Text.occurrences_trim (by decide) line)
  have hclose : Text.count closingCommand (Text.trim line) =
      Text.occurrences closingCommand line := by
    have htail : '\\' ∉ "end\x7b".toList := by decide
    exact (Text.count_eq_occurrences htail _).trans (Text.occurrences_trim (by decide) line)
  rw [openBehind, List.foldl_cons, ← hopen, ← hclose]
  rfl

/-! ### Lines that begin an item -/

/-- A text begins with a label, or with none if it does not begin with a group in brackets. -/
def BeginsWithLabel (label rest : List Char) : Prop :=
  (label = [] ∧ bracketed? rest = none) ∨
    ∃ content, label = '[' :: content ++ [']'] ∧ bracketed? (label ++ rest) = some (content, rest)

/-- A line begins an item, of which `first` is left on it: without the blanks around it, it is the
command of an item that no letter makes a longer one, a label or none, blanks, and what is left. -/
def CutsMarker (line first : Line) : Prop :=
  ∃ label blanks, Text.trim line = "\\item".toList ++ (label ++ (blanks ++ first)) ∧
    startsWithLetter (label ++ (blanks ++ first)) = false ∧
    BeginsWithLabel label (blanks ++ first) ∧ Text.isBlank blanks = true ∧ Text.trim first = first

theorem exists_label (s : List Char) :
    ∃ label, s = label ++ skipBracketed s ∧ BeginsWithLabel label (skipBracketed s) := by
  rw [skipBracketed]
  cases h : bracketed? s with
  | none => exact ⟨[], rfl, .inl ⟨rfl, h⟩⟩
  | some r =>
    obtain ⟨content, rest⟩ := r
    have hs : s = '[' :: content ++ [']'] ++ rest := by
      unfold bracketed? at h
      split at h
      · next s' => rw [closeBracket?_eq_some h]; simp
      · cases h
    exact ⟨'[' :: content ++ [']'], hs, .inr ⟨content, rfl, hs ▸ h⟩⟩

theorem BeginsWithLabel.skipBracketed_eq {label rest : List Char} (h : BeginsWithLabel label rest) :
    skipBracketed (label ++ rest) = rest := by
  rcases h with ⟨rfl, hnone⟩ | ⟨content, -, hsome⟩
  · rw [List.nil_append, skipBracketed, hnone]
  · rw [skipBracketed, hsome]

theorem cutsMarker_iff {line first : Line} :
    CutsMarker line first ↔ item? (Text.trim line) = some first := by
  constructor
  · rintro ⟨label, blanks, hline, hletter, hlabel, hblanks, hfirst⟩
    have hsolid : Text.SolidHead first := hfirst ▸ Text.solidHead_trim first
    rw [hline, item?, Text.stripPrefix?_append]
    dsimp only
    rw [hletter, if_neg (by decide), hlabel.skipBracketed_eq,
      Text.trimLeft_append_of_isBlank hblanks, Text.trimLeft_eq_self hsolid]
  · intro h
    rw [item?] at h
    split at h
    · next rest hrest =>
      split at h
      · cases h
      · next hletter =>
        obtain rfl := Option.some.inj h
        obtain ⟨label, hlabel, hbegins⟩ := exists_label rest
        obtain ⟨blanks, hblanks, hfirst⟩ := Text.exists_blank_append_trimLeft (skipBracketed rest)
        have hline := Text.stripPrefix?_eq_some_iff.mp hrest
        refine ⟨label, blanks, ?_, ?_, ?_, hblanks, ?_⟩
        · rw [hfirst, ← hlabel, hline]
        · rw [hfirst, ← hlabel]
          simpa using hletter
        · rwa [hfirst]
        · -- what is left ends where the line without its blanks ends
          by_cases hnil : Text.trimLeft (skipBracketed rest) = []
          · rw [hnil]
            rfl
          · refine Text.trim_eq_self (Text.solidHead_trimLeft _) ?_
            have hlast := Text.solidLast_trim line
            rw [hline, hlabel, ← hfirst, ← List.append_assoc, ← List.append_assoc] at hlast
            exact (Text.solidLast_append hnil).mp hlast
    · cases h

/-! ### Lines cut at markers -/

/-- The line at a place begins an item, if `depth` environments are open before all lines. -/
def StartsItem (depth : Nat) (lines : List Line) (place : Nat) : Prop :=
  openBehind depth (lines.take place) = 0 ∧
    ∃ line ∈ lines[place]?, ∃ first, CutsMarker line first

/-- What is left of the marker of an item on a line, if the line begins an item where `depth`
environments are open. -/
def marker? (depth : Nat) (line : Line) : Option Line :=
  if depth = 0 then item? (Text.trim line) else none

/-- The lines without the markers of the items that begin on them. -/
def cutLines (depth : Nat) : List Line → List Line
  | [] => []
  | line :: lines =>
    (marker? depth line).getD line :: cutLines (depthAfter depth (Text.trim line)) lines

/-- What is kept of the line at a place. -/
def Keeps (depth : Nat) (lines : List Line) (place : Nat) (line kept : Line) : Prop :=
  (StartsItem depth lines place ∧ CutsMarker line kept) ∨
    (¬ StartsItem depth lines place ∧ kept = line)

theorem marker?_eq_some_iff {depth : Nat} {line first : Line} :
    marker? depth line = some first ↔ depth = 0 ∧ CutsMarker line first := by
  rw [marker?, cutsMarker_iff]
  split <;> simp [*]

theorem startsItem_zero {depth : Nat} {line : Line} {lines : List Line} :
    StartsItem depth (line :: lines) 0 ↔ ∃ first, marker? depth line = some first := by
  simp only [StartsItem, marker?_eq_some_iff, List.take_zero, openBehind, List.foldl_nil,
    List.getElem?_cons_zero, Option.mem_some_iff, exists_eq_left', exists_and_left]

theorem startsItem_succ {depth place : Nat} {line : Line} {lines : List Line} :
    StartsItem depth (line :: lines) (place + 1) ↔
      StartsItem (depthAfter depth (Text.trim line)) lines place := by
  rw [StartsItem, StartsItem, List.take_succ_cons, openBehind_cons, List.getElem?_cons_succ]

theorem not_startsItem_nil (depth place : Nat) : ¬ StartsItem depth [] place := by
  rintro ⟨-, line, hline, -⟩
  rw [List.getElem?_nil] at hline
  cases hline

theorem length_cutLines (depth : Nat) (lines : List Line) :
    (cutLines depth lines).length = lines.length := by
  induction lines generalizing depth with
  | nil => rfl
  | cons line lines ih => rw [cutLines, List.length_cons, ih, List.length_cons]

/-- **Only the markers are cut off.** -/
theorem keeps_cutLines {depth place : Nat} {lines : List Line} {line kept : Line}
    (hline : lines[place]? = some line) (hkept : (cutLines depth lines)[place]? = some kept) :
    Keeps depth lines place line kept := by
  induction lines generalizing depth place with
  | nil => cases hline
  | cons first lines ih =>
    rw [cutLines] at hkept
    cases place with
    | zero =>
      obtain rfl := Option.some.inj hline
      obtain rfl := Option.some.inj hkept
      rw [Keeps, startsItem_zero]
      cases hmarker : marker? depth first with
      | none => exact .inr ⟨by simp, rfl⟩
      | some rest => exact .inl ⟨⟨rest, rfl⟩, (marker?_eq_some_iff.mp hmarker).2⟩
    | succ place =>
      rw [Keeps, startsItem_succ]
      exact ih hline hkept

/-! ### Items -/

/-- An item starts at a place of the lines that the items have together. -/
def StartsAt (items : List (List Line)) (place : Nat) : Prop :=
  ∃ before item after, items = before ++ item :: after ∧ before.flatten.length = place

theorem not_startsAt_nil (place : Nat) : ¬ StartsAt [] place := by
  rintro ⟨before, item, after, h, -⟩
  exact List.append_ne_nil_of_right_ne_nil before (List.cons_ne_nil item after) h.symm

theorem startsAt_cons {item : List Line} {items : List (List Line)} {place : Nat} :
    StartsAt (item :: items) place ↔
      place = 0 ∨ ∃ later, StartsAt items later ∧ place = item.length + later := by
  constructor
  · rintro ⟨before, other, after, h, rfl⟩
    rcases List.cons_eq_append_iff.mp h with ⟨rfl, -⟩ | ⟨before', rfl, hitems⟩
    · exact .inl rfl
    · refine .inr ⟨_, ⟨before', other, after, hitems, rfl⟩, ?_⟩
      rw [List.flatten_cons, List.length_append]
  · rintro (rfl | ⟨later, ⟨before, other, after, rfl, rfl⟩, rfl⟩)
    · exact ⟨[], item, items, rfl, rfl⟩
    · refine ⟨item :: before, other, after, rfl, ?_⟩
      rw [List.flatten_cons, List.length_append]

theorem splitItems_of_marker {depth : Nat} {line first : Line} (h : marker? depth line = some first)
    (lines : List Line) :
    splitItems depth (line :: lines) =
      ([], (first :: (splitItems (depthAfter depth (Text.trim line)) lines).1) ::
        (splitItems (depthAfter depth (Text.trim line)) lines).2) := by
  rw [marker?] at h
  rw [splitItems, h]

theorem splitItems_of_no_marker {depth : Nat} {line : Line} (h : marker? depth line = none)
    (lines : List Line) :
    splitItems depth (line :: lines) =
      prependLeading [line] (splitItems (depthAfter depth (Text.trim line)) lines) := by
  refine splitItems_cons (fun hdepth => ?_) lines
  rwa [marker?, if_pos hdepth] at h

/-- **Nothing is lost, and nothing comes twice**: the lines before the first item and those of the
items are all lines, without the markers. -/
theorem flatten_splitItems (depth : Nat) (lines : List Line) :
    (splitItems depth lines).1 ++ (splitItems depth lines).2.flatten = cutLines depth lines := by
  induction lines generalizing depth with
  | nil => rfl
  | cons line lines ih =>
    rw [cutLines, ← ih]
    cases h : marker? depth line with
    | none => rw [splitItems_of_no_marker h]; rfl
    | some first => rw [splitItems_of_marker h, List.flatten_cons]; rfl

/-- The lines before the first item are those in front. -/
theorem leading_isPrefix (depth : Nat) (lines : List Line) :
    (splitItems depth lines).1 <+: lines := by
  induction lines generalizing depth with
  | nil => exact List.prefix_refl []
  | cons line lines ih =>
    cases h : marker? depth line with
    | none =>
      rw [splitItems_of_no_marker h]
      exact List.cons_prefix_cons.mpr ⟨rfl, ih _⟩
    | some first =>
      rw [splitItems_of_marker h]
      exact List.nil_prefix

theorem ne_nil_of_mem_splitItems {depth : Nat} {lines item : List Line}
    (h : item ∈ (splitItems depth lines).2) : item ≠ [] := by
  induction lines generalizing depth with
  | nil => cases h
  | cons line lines ih =>
    cases hmarker : marker? depth line with
    | none =>
      rw [splitItems_of_no_marker hmarker] at h
      exact ih h
    | some first =>
      rw [splitItems_of_marker hmarker] at h
      rcases List.mem_cons.mp h with rfl | h
      · exact List.cons_ne_nil _ _
      · exact ih h

/-- **An item starts where a line begins one**, and nowhere else. -/
theorem startsItem_iff {depth place : Nat} {lines : List Line} :
    StartsItem depth lines place ↔
      ∃ later, StartsAt (splitItems depth lines).2 later ∧
        place = (splitItems depth lines).1.length + later := by
  induction lines generalizing depth place with
  | nil =>
    refine iff_of_false (not_startsItem_nil depth place) ?_
    rintro ⟨later, hlater, -⟩
    exact not_startsAt_nil later hlater
  | cons line lines ih =>
    cases h : marker? depth line with
    | none =>
      rw [splitItems_of_no_marker h, prependLeading, List.length_append, List.length_singleton]
      cases place with
      | zero =>
        rw [startsItem_zero, h]
        refine iff_of_false (by simp) ?_
        rintro ⟨later, -, hplace⟩
        omega
      | succ place =>
        rw [startsItem_succ, ih]
        refine exists_congr fun later => and_congr_right fun _ => ?_
        omega
    | some first =>
      rw [splitItems_of_marker h]
      cases place with
      | zero =>
        rw [startsItem_zero]
        exact iff_of_true ⟨first, h⟩ ⟨0, startsAt_cons.mpr (.inl rfl), rfl⟩
      | succ place =>
        simp only [startsItem_succ, ih, startsAt_cons, List.length_nil, List.length_cons,
          Nat.zero_add, exists_eq_right', Nat.add_one_ne_zero, false_or]
        refine exists_congr fun later => and_congr_right fun _ => ?_
        omega

/-- **The items of a list divide its body.**  Let `front` lines stand before the first line that
begins an item.  If they are all blank they are dropped, and otherwise they are an item of their
own; all other items start at the lines that begin one.  The lines of the items, one item after the
other, are the remaining lines of the body in order, and no more: a line that begins an item is cut
behind its marker, and every other line is kept as it is.  As no item is without lines, this says
for every line in which item it stands.  What is read as the items are their lines. -/
theorem itemLines_partition_body (body : List Line) :
    ∃ front dropped, front ≤ body.length ∧ (∀ place < front, ¬ StartsItem 0 body place) ∧
      (front < body.length → StartsItem 0 body front) ∧
      dropped = (if (body.take front).all Text.isBlank then front else 0) ∧
      (itemLines body).flatten.length + dropped = body.length ∧
      (∀ place line kept, body[dropped + place]? = some line →
        (itemLines body).flatten[place]? = some kept →
          Keeps 0 body (dropped + place) line kept) ∧
      (∀ item ∈ itemLines body, item ≠ []) ∧
      (∀ place, StartsAt (itemLines body) place ↔ StartsItem 0 body (dropped + place) ∨
        ((body.take front).all Text.isBlank = false ∧ place = 0)) ∧
      itemBlocks (itemLines body) = (itemLines body).map parseBlocks := by
  obtain ⟨leading, items, hsplit⟩ : ∃ leading items, splitItems 0 body = (leading, items) :=
    ⟨_, _, rfl⟩
  have hprefix : leading <+: body := by simpa [hsplit] using leading_isPrefix 0 body
  have hcut : leading ++ items.flatten = cutLines 0 body := by
    simpa [hsplit] using flatten_splitItems 0 body
  have hstarts : ∀ place, StartsItem 0 body place ↔
      ∃ later, StartsAt items later ∧ place = leading.length + later := fun place => by
    rw [startsItem_iff, hsplit]
  have hne : ∀ item ∈ items, item ≠ [] := fun item hitem => by
    have hmem : item ∈ (splitItems 0 body).2 := by rwa [hsplit]
    exact ne_nil_of_mem_splitItems hmem
  have hitems : itemLines body =
      if leading.all Text.isBlank then items else leading :: items := by
    rw [itemLines, hsplit]
  have hlength : leading.length + items.flatten.length = body.length := by
    rw [← List.length_append, hcut, length_cutLines]
  have hfront : body.take leading.length = leading := (List.prefix_iff_eq_take.mp hprefix).symm
  -- the lines of the items, whether those in front are among them or not
  have hflatten : (itemLines body).flatten =
      (cutLines 0 body).drop (if leading.all Text.isBlank then leading.length else 0) := by
    rw [hitems, ← hcut]
    split
    · rw [List.drop_left]
    · rfl
  refine ⟨leading.length, _, hprefix.length_le, fun place hplace hstart => ?_, fun hlt => ?_, rfl,
    ?_, fun place line kept hline hkept => ?_, fun item hitem => ?_, fun place => ?_,
    itemBlocks_eq_map _⟩
  · obtain ⟨later, -, rfl⟩ := (hstarts place).mp hstart
    omega
  · cases items with
    | nil => simp at hlength; omega
    | cons item items => exact (hstarts _).mpr ⟨0, startsAt_cons.mpr (.inl rfl), rfl⟩
  · rw [hflatten, hfront, List.length_drop, length_cutLines]
    split <;> omega
  · rw [hflatten, List.getElem?_drop] at hkept
    rw [hfront] at hline ⊢
    exact keeps_cutLines hline hkept
  · rw [hitems] at hitem
    split at hitem
    · exact hne item hitem
    · next hblank =>
      rcases List.mem_cons.mp hitem with rfl | hitem
      · rintro rfl
        exact hblank rfl
      · exact hne item hitem
  · rw [hfront, hstarts, hitems]
    split
    · next hblank => simp [hblank]
    · next hblank => simp [hblank, startsAt_cons, or_comm]

-- a line in front, a label, an item in an environment, and a line of another item
example : itemLines (["a", " \\item[-]  b", "\\begin\x7bx\x7d", "\\item c", "\\end\x7bx\x7d",
      "\\items", "\\item"].map String.toList) =
    [["a"], ["b", "\\begin\x7bx\x7d", "\\item c", "\\end\x7bx\x7d", "\\items"], [""]].map
      (·.map String.toList) := by
  decide

end Interdoc.Latex

import Interdoc.Proofs.Docx.ListRuns
import Interdoc.Proofs.Docx.Numbering

/-!
# The lists of numbered paragraphs

A run of numbered paragraphs is rendered as a forest of lists (`ListForest`), in which every
paragraph is an item.  Where an item stands is decided by what comes before it (`pieces_run`): it
belongs to the nearest earlier paragraph of a smaller level, and it goes on with the list of the
nearest earlier paragraph whose level is not greater, if that has the same level and the same
number.

The stack of open lists knows all that is needed for this.  Its items are a chain, in which each is
the nearest one of a smaller level before the one inside it (`IsChain`), and so the nearest earlier
paragraph with a bounded level is the innermost item with such a level (`nearest?_eq_find?`).

What is still to be rendered closes the open items one after the other, after further lists in each
of them and further items behind it (`Finishes`).  The proof is an induction on the paragraphs that
are left, from the last to the first; a paragraph becomes the first item of the list, or the next
item, in front of all that follows it.
-/

namespace Interdoc.Docx

open Html (Piece)
open Context (listTag closeFrames)

/-! ### The nearest earlier number -/

/-- The nearest number below another one that has a property. -/
def nearest? (P : Nat → Prop) [DecidablePred P] : Nat → Option Nat
  | 0 => none
  | k + 1 => if P k then some k else nearest? P k

section

variable {P : Nat → Prop} [DecidablePred P] {k j : Nat}

theorem nearest?_eq_none_iff : nearest? P k = none ↔ ∀ i < k, ¬ P i := by
  induction k with
  | zero => simp [nearest?]
  | succ k ih =>
    rw [nearest?]
    split
    · next hk => exact iff_of_false (by simp) fun h => h k (Nat.lt_succ_self k) hk
    · next hk =>
      rw [ih]
      refine ⟨fun h i hi => ?_, fun h i hi => h i (Nat.lt_succ_of_lt hi)⟩
      rcases Nat.lt_succ_iff_lt_or_eq.mp hi with hi | rfl
      · exact h i hi
      · exact hk

theorem nearest?_eq_some_iff :
    nearest? P k = some j ↔ j < k ∧ P j ∧ ∀ i, j < i → i < k → ¬ P i := by
  induction k with
  | zero => simp [nearest?]
  | succ k ih =>
    rw [nearest?]
    split
    · next hk =>
      rw [Option.some_inj]
      constructor
      · rintro rfl
        exact ⟨Nat.lt_succ_self k, hk, fun i hki hi => absurd hi (by omega)⟩
      · rintro ⟨hj, -, hbetween⟩
        by_contra hne
        exact hbetween k (by omega) (Nat.lt_succ_self k) hk
    · next hk =>
      rw [ih]
      constructor
      · rintro ⟨hj, hP, hbetween⟩
        refine ⟨by omega, hP, fun i hji hi => ?_⟩
        rcases Nat.lt_succ_iff_lt_or_eq.mp hi with hi | rfl
        · exact hbetween i hji hi
        · exact hk
      · rintro ⟨hj, hP, hbetween⟩
        have hne : j ≠ k := fun he => hk (he ▸ hP)
        exact ⟨by omega, hP, fun i hji hi => hbetween i hji (by omega)⟩

end

/-! ### Chains -/

/-- Each number is the nearest one of a smaller depth before the one in front of it, and there is
none before the last. -/
def IsChain (depth : Nat → Nat) : List Nat → Prop
  | [] => True
  | i :: outer => nearest? (depth · < depth i) i = outer.head? ∧ IsChain depth outer

section

variable {depth : Nat → Nat} {items : List Nat}

theorem IsChain.of_append {inner outer : List Nat} (h : IsChain depth (inner ++ outer)) :
    IsChain depth outer := by
  induction inner with
  | nil => exact h
  | cons i inner ih => exact ih h.2

/-- The depths get smaller along a chain. -/
theorem IsChain.pairwise (h : IsChain depth items) :
    items.Pairwise fun inner outer => depth outer < depth inner := by
  induction items with
  | nil => exact .nil
  | cons i outer ih =>
    obtain ⟨hnearest, houter⟩ := h
    refine List.pairwise_cons.mpr ⟨fun j hj => ?_, ih houter⟩
    cases outer with
    | nil => exact absurd hj List.not_mem_nil
    | cons first outer =>
      have hfirst : depth first < depth i := (nearest?_eq_some_iff.mp hnearest).2.1
      rcases List.mem_cons.mp hj with rfl | hj
      · exact hfirst
      · exact ((List.pairwise_cons.mp (ih houter)).1 j hj).trans hfirst

/-- **The nearest number with a bounded depth is found in a chain**, unless there is one behind the
beginning of the chain. -/
theorem nearest?_eq_find? {Q : Nat → Prop} [DecidablePred Q]
    (hQ : ∀ i j, depth i ≤ depth j → Q j → Q i) (h : IsChain depth items) {k : Nat}
    (hhead : ∀ i ∈ items.head?, i < k)
    (hbehind : ∀ j < k, (∀ i ∈ items.head?, i < j) → ¬ Q j) :
    nearest? Q k = items.find? (fun i => Q i) := by
  induction items with
  | nil => exact nearest?_eq_none_iff.mpr fun j hj => hbehind j hj (by simp)
  | cons i outer ih =>
    obtain ⟨hnearest, houter⟩ := h
    have hik : i < k := hhead i rfl
    by_cases hi : Q i
    · rw [List.find?_cons_of_pos (by simpa using hi), nearest?_eq_some_iff]
      refine ⟨hik, hi, fun j hij hjk => hbehind j hjk fun i' hi' => ?_⟩
      obtain rfl := Option.some_inj.mp hi'
      exact hij
    · rw [List.find?_cons_of_neg (by simpa using hi)]
      -- none of the numbers up to the next one of the chain is less deep than this one
      have hbetween : ∀ j < i, (∀ i' ∈ outer.head?, i' < j) → depth i ≤ depth j := by
        intro j hj hafter
        cases hfirst : outer.head? with
        | none =>
          rw [hfirst, nearest?_eq_none_iff] at hnearest
          exact Nat.le_of_not_lt (hnearest j hj)
        | some first =>
          rw [hfirst, nearest?_eq_some_iff] at hnearest
          exact Nat.le_of_not_lt (hnearest.2.2 j (hafter first hfirst) hj)
      refine ih houter (fun i' hi' => ?_) fun j hjk hafter => ?_
      · rw [hi', nearest?_eq_some_iff] at hnearest
        exact hnearest.1.trans hik
      · rcases lt_trichotomy j i with hj | rfl | hj
        · exact fun hQj => hi (hQ i j (hbetween j hj hafter) hQj)
        · exact hi
        · refine hbehind j hjk fun i' hi' => ?_
          obtain rfl := Option.some_inj.mp hi'
          exact hj

end

/-! ### Runs -/

section

variable (run : List RunItem)

/-- The level of a paragraph of a run. -/
def depthAt (k : Nat) : Nat :=
  (run[k]?.map fun r => levelNumber r.level).getD 0

/-- The number of a paragraph of a run. -/
def numIdAt (k : Nat) : String :=
  (run[k]?.map RunItem.numId).getD ""

/-- What a paragraph of a run adds to its item. -/
def contentAt (k : Nat) : List Piece :=
  (run[k]?.map RunItem.pieces).getD []

/-- The paragraph whose item a paragraph stands in: the nearest earlier one of a smaller level. -/
def parentOf (k : Nat) : Option Nat :=
  nearest? (depthAt run · < depthAt run k) k

/-- The item before that of a paragraph in the same list.  It is the nearest earlier paragraph whose
level is not greater, if that has the same level and the same number. -/
def previousOf (k : Nat) : Option Nat :=
  (nearest? (depthAt run · ≤ depthAt run k) k).filter fun m =>
    depthAt run m = depthAt run k ∧ numIdAt run m = numIdAt run k

end

/-! ### Forests -/

mutual

/-- Lists in a row.  A list has a first item and more of them, and an item has lists in it. -/
inductive ListForest where
  | nil
  | cons (ordered : Bool) (first : Nat) (inner : ListForest) (more : ListItems) (rest : ListForest)

/-- The items of a list after the first. -/
inductive ListItems where
  | nil
  | cons (item : Nat) (inner : ListForest) (rest : ListItems)

end

mutual

/-- The HTML of lists, whose items begin with the content that belongs to them. -/
def ListForest.pieces (content : Nat → List Piece) : ListForest → List Piece
  | .nil => []
  | .cons ordered first inner more rest =>
    Html.element (listTag ordered)
      (Html.element "li" (content first ++ inner.pieces content) ++ more.pieces content) ++
        rest.pieces content

/-- The HTML of the items of a list after the first. -/
def ListItems.pieces (content : Nat → List Piece) : ListItems → List Piece
  | .nil => []
  | .cons item inner rest =>
    Html.element "li" (content item ++ inner.pieces content) ++ rest.pieces content

end

/-- Where an item stands. -/
structure ListEntry where
  item : Nat
  /-- The item that its list is in. -/
  parent : Option Nat
  /-- The item before it in its list. -/
  previous : Option Nat
  /-- Whether its list is numbered. -/
  ordered : Bool

mutual

/-- The items of lists in the order in which they are opened. -/
def ListForest.entries (parent : Option Nat) : ListForest → List ListEntry
  | .nil => []
  | .cons ordered first inner more rest =>
    ⟨first, parent, none, ordered⟩ :: (inner.entries (some first) ++
      (more.entries parent first ordered ++ rest.entries parent))

/-- The items of a list after one of its items, in the order in which they are opened. -/
def ListItems.entries (parent : Option Nat) (previous : Nat) (ordered : Bool) :
    ListItems → List ListEntry
  | .nil => []
  | .cons item inner rest =>
    ⟨item, parent, some previous, ordered⟩ ::
      (inner.entries (some item) ++ rest.entries parent item ordered)

end

/-! ### Closing the open items -/

/-- An item that is open, in its list. -/
structure OpenItem where
  item : Nat
  frame : ListFrame

/-- What is still to come when some items are open, the innermost first.  In each of them there are
lists before it is closed, and more items of its list after it; when all of them are closed there
are further lists. -/
inductive Finishes (content : Nat → List Piece) :
    List OpenItem → List Piece → List ListEntry → Prop where
  | top (forest : ListForest) : Finishes content [] (forest.pieces content) (forest.entries none)
  | item {o : OpenItem} {outer : List OpenItem} {ps : List Piece} {es : List ListEntry}
    (inner : ListForest) (more : ListItems) : Finishes content outer ps es →
      Finishes content (o :: outer)
        (inner.pieces content ++ .finish "li" ::
          (more.pieces content ++ .finish (listTag o.frame.ordered) :: ps))
        (inner.entries (some o.item) ++
          (more.entries (outer.head?.map OpenItem.item) o.item o.frame.ordered ++ es))

section

variable {content : Nat → List Piece} {outer : List OpenItem} {ps : List Piece}
  {es : List ListEntry}

/-- Items that are closed at once have nothing more in them or behind them. -/
theorem Finishes.close (ended : List OpenItem) (h : Finishes content outer ps es) :
    Finishes content (ended ++ outer) (closeFrames (ended.map OpenItem.frame) ++ ps) es := by
  induction ended with
  | nil => exact h
  | cons o ended ih => exact .item .nil .nil ih

/-- The next item of the innermost list. -/
theorem Finishes.next {k m : Nat} {frame : ListFrame}
    (h : Finishes content (⟨k, frame⟩ :: outer) ps es) :
    Finishes content (⟨m, frame⟩ :: outer)
      (.finish "li" :: .start "li" [] :: (content k ++ ps))
      (⟨k, outer.head?.map OpenItem.item, some m, frame.ordered⟩ :: es) := by
  cases h with
  | item inner more h =>
    have hnext := Finishes.item (o := ⟨m, frame⟩) .nil (.cons k inner more) h
    simpa [ListForest.pieces, ListForest.entries, ListItems.pieces, ListItems.entries,
      Html.element] using hnext

/-- The first item of a list in the innermost item. -/
theorem Finishes.first {k : Nat} {frame : ListFrame}
    (h : Finishes content (⟨k, frame⟩ :: outer) ps es) :
    Finishes content outer
      (.start (listTag frame.ordered) [] :: .start "li" [] :: (content k ++ ps))
      (⟨k, outer.head?.map OpenItem.item, none, frame.ordered⟩ :: es) := by
  cases h with
  | item inner more h =>
    -- the new list stands in front of the lists that follow where it begins
    cases h with
    | top forest =>
      have hfirst : Finishes content [] _ _ :=
        .top (.cons frame.ordered k inner more forest)
      simpa [ListForest.pieces, ListForest.entries, Html.element] using hfirst
    | @item o _ _ _ lists others h =>
      have hfirst := Finishes.item (o := o) (.cons frame.ordered k inner more lists) others h
      simpa [ListForest.pieces, ListForest.entries, Html.element] using hfirst

end

/-! ### Following a run -/

/-- The items that are open after some paragraphs of a run. -/
structure Follows (run : List RunItem) (k : Nat) (stack : List OpenItem) : Prop where
  chain : IsChain (depthAt run) (stack.map OpenItem.item)
  /-- The innermost item is that of the latest paragraph. -/
  latest : ∀ j, j < k ↔ ∃ i ∈ (stack.map OpenItem.item).head?, j ≤ i
  frames : ∀ o ∈ stack, o.frame.level = depthAt run o.item ∧ o.frame.numId = numIdAt run o.item

variable {p : Package} {run : List RunItem} {k : Nat} {stack ended outer : List OpenItem}

theorem follows_nil (run : List RunItem) : Follows run 0 [] :=
  ⟨trivial, fun j => by simp, List.forall_mem_nil _⟩

/-- The open items are those that a paragraph ends, and those that stay open around it. -/
theorem exists_split (run : List RunItem) (stack : List OpenItem) (depth : Nat) (numId : String) :
    ∃ ended remaining, stack = ended ++ remaining ∧
      (∀ o ∈ ended, depth < depthAt run o.item ∨
        (depthAt run o.item = depth ∧ numIdAt run o.item ≠ numId)) ∧
      ∀ o ∈ remaining.head?, depthAt run o.item < depth ∨
        (depthAt run o.item = depth ∧ numIdAt run o.item = numId) := by
  let isEnded (o : OpenItem) : Bool :=
    decide (depth < depthAt run o.item ∨
      (depthAt run o.item = depth ∧ numIdAt run o.item ≠ numId))
  -- the items that are ended stand in front, as the deeper ones do
  refine ⟨stack.takeWhile isEnded, stack.dropWhile isEnded,
    List.takeWhile_append_dropWhile.symm, fun o ho => ?_, fun o ho => ?_⟩
  · simpa [isEnded] using List.mem_takeWhile_imp ho
  · have hstays : isEnded o = false := by
      have := List.head?_dropWhile_not isEnded stack
      rw [ho] at this
      simpa using this
    simp only [isEnded, decide_eq_false_iff_not] at hstays
    rcases Nat.lt_trichotomy (depthAt run o.item) depth with hlt | heq | hgt
    · exact .inl hlt
    · exact .inr ⟨heq, by_contra fun hne => hstays (.inr ⟨heq, hne⟩)⟩
    · exact absurd (.inl hgt) hstays

theorem find?_append_of_forall {Q : OpenItem → Prop} [DecidablePred Q]
    (hended : ∀ o ∈ ended, ¬ Q o) (houter : ∀ o ∈ outer, Q o) :
    (ended ++ outer).find? (fun o => Q o) = outer.head? := by
  have hnone : ended.find? (fun o => Q o) = none :=
    List.find?_eq_none.mpr fun o ho => by simpa using hended o ho
  rw [List.find?_append, hnone, Option.none_or]
  cases outer with
  | nil => rfl
  | cons o outer => exact List.find?_cons_of_pos (by simpa using houter o List.mem_cons_self)

section

variable (h : Follows run k stack)

include h

/-- The nearest earlier paragraph with a bounded level is an open item. -/
theorem Follows.nearest?_eq {Q : Nat → Prop} [DecidablePred Q]
    (hQ : ∀ i j, depthAt run i ≤ depthAt run j → Q j → Q i) :
    nearest? Q k = (stack.find? fun o => Q o.item).map OpenItem.item := by
  have hhead : ∀ i ∈ (stack.map OpenItem.item).head?, i < k := fun i hi =>
    (h.latest i).mpr ⟨i, hi, le_rfl⟩
  have hbehind : ∀ j < k, (∀ i ∈ (stack.map OpenItem.item).head?, i < j) → ¬ Q j := by
    intro j hj hafter
    obtain ⟨i, hi, hle⟩ := (h.latest j).mp hj
    exact absurd (hafter i hi) (Nat.not_lt.mpr hle)
  rw [nearest?_eq_find? hQ h.chain hhead hbehind, List.find?_map]
  rfl

/-- The levels of the open items get smaller to the outside. -/
theorem Follows.pairwise :
    stack.Pairwise fun inner outer => depthAt run outer.item < depthAt run inner.item :=
  List.pairwise_map.mp h.chain.pairwise

/-- A paragraph goes on with an open list, all lists inside of which it ends, or it begins a list in
an item of a smaller level. -/
theorem Follows.cases (depth : Nat) (numId : String) :
    (∃ ended o outer, stack = ended ++ o :: outer ∧
      (depthAt run o.item = depth ∧ numIdAt run o.item = numId) ∧
      (∀ e ∈ ended, depth < depthAt run e.item) ∧ ∀ e ∈ outer, depthAt run e.item < depth) ∨
    ∃ ended outer, stack = ended ++ outer ∧
      (∀ e ∈ ended, depth < depthAt run e.item ∨
        (depthAt run e.item = depth ∧ numIdAt run e.item ≠ numId)) ∧
      ∀ e ∈ outer, depthAt run e.item < depth := by
  obtain ⟨ended, remaining, hstack, hended, hremaining⟩ := exists_split run stack depth numId
  -- levels grow towards the inside, so at most one open item has the level of the paragraph
  have hpairwise := h.pairwise
  rw [hstack, List.pairwise_append] at hpairwise
  obtain ⟨-, hpairwise, hdeeper⟩ := hpairwise
  cases remaining with
  | nil => exact .inr ⟨ended, [], hstack, hended, List.forall_mem_nil _⟩
  | cons o outer =>
    have houter := (List.pairwise_cons.mp hpairwise).1
    rcases hremaining o rfl with hlt | ⟨heq, hnumber⟩
    · refine .inr ⟨ended, o :: outer, hstack, hended, List.forall_mem_cons.mpr ⟨hlt, ?_⟩⟩
      exact fun e he => (houter e he).trans hlt
    · refine .inl ⟨ended, o, outer, hstack, ⟨heq, hnumber⟩, fun e he => ?_, fun e he => ?_⟩
      · exact heq ▸ hdeeper e he o List.mem_cons_self
      · exact heq ▸ houter e he

/-- The items that are open when a paragraph has been put in front of the remaining ones. -/
theorem Follows.cons {frame : ListFrame} (hstack : stack = ended ++ outer)
    (hparent : parentOf run k = outer.head?.map OpenItem.item)
    (hframe : frame.level = depthAt run k ∧ frame.numId = numIdAt run k) :
    Follows run (k + 1) (⟨k, frame⟩ :: outer) := by
  have hchain := h.chain
  rw [hstack, List.map_append] at hchain
  refine ⟨⟨?_, hchain.of_append⟩, fun j => ?_, List.forall_mem_cons.mpr ⟨hframe, fun o ho => ?_⟩⟩
  · rw [← parentOf, hparent, List.head?_map]
  · exact ⟨fun hj => ⟨k, rfl, Nat.le_of_lt_succ hj⟩, fun ⟨_, hi, hj⟩ =>
      Nat.lt_succ_of_le (hj.trans (Option.some_inj.mp hi).ge)⟩
  · exact h.frames o (hstack ▸ List.mem_append_right _ ho)

/-- The parent of a paragraph is the innermost of the items of a smaller level. -/
theorem Follows.parentOf_eq (hstack : stack = ended ++ outer)
    (hended : ∀ e ∈ ended, depthAt run k ≤ depthAt run e.item)
    (houter : ∀ e ∈ outer, depthAt run e.item < depthAt run k) :
    parentOf run k = outer.head?.map OpenItem.item := by
  have hnearest : parentOf run k =
      (stack.find? fun o => depthAt run o.item < depthAt run k).map OpenItem.item :=
    h.nearest?_eq fun i j hij hj => hij.trans_lt hj
  rw [hnearest, hstack, find?_append_of_forall (fun e he => Nat.not_lt.mpr (hended e he)) houter]

/-- The paragraph before another one in a list that goes on with it. -/
theorem Follows.previousOf_next {o : OpenItem} (hstack : stack = ended ++ o :: outer)
    (ho : depthAt run o.item = depthAt run k ∧ numIdAt run o.item = numIdAt run k)
    (hended : ∀ e ∈ ended, depthAt run k < depthAt run e.item)
    (houter : ∀ e ∈ outer, depthAt run e.item < depthAt run k) :
    previousOf run k = some o.item := by
  have hnearest : nearest? (depthAt run · ≤ depthAt run k) k =
      (stack.find? fun o => depthAt run o.item ≤ depthAt run k).map OpenItem.item :=
    h.nearest?_eq fun i j hij hj => hij.trans hj
  have hinner : ∀ e ∈ o :: outer, depthAt run e.item ≤ depthAt run k :=
    List.forall_mem_cons.mpr ⟨ho.1.le, fun e he => (houter e he).le⟩
  rw [previousOf, hnearest, hstack,
    find?_append_of_forall (fun e he => Nat.not_le.mpr (hended e he)) hinner]
  simp [ho]

/-- No open list goes on with a paragraph that begins one. -/
theorem Follows.previousOf_first (hstack : stack = ended ++ outer)
    (hended : ∀ e ∈ ended, depthAt run k < depthAt run e.item ∨
      (depthAt run e.item = depthAt run k ∧ numIdAt run e.item ≠ numIdAt run k))
    (houter : ∀ e ∈ outer, depthAt run e.item < depthAt run k) :
    previousOf run k = none := by
  have hnearest : nearest? (depthAt run · ≤ depthAt run k) k =
      (stack.find? fun o => depthAt run o.item ≤ depthAt run k).map OpenItem.item :=
    h.nearest?_eq fun i j hij hj => hij.trans hj
  rw [previousOf, hnearest, Option.filter_eq_none_iff]
  intro m hm
  obtain ⟨o, ho, rfl⟩ := Option.map_eq_some_iff.mp hm
  have hmem : o ∈ ended ++ outer := hstack ▸ List.mem_of_find?_eq_some ho
  rw [decide_eq_true_eq]
  rintro ⟨hdepth, hnumber⟩
  rcases List.mem_append.mp hmem with hmem | hmem
  · rcases hended o hmem with hlt | ⟨-, hne⟩
    · omega
    · exact hne hnumber
  · have := houter o hmem
    omega

end

/-! ### One paragraph -/

/-- A paragraph of a run is rendered when some items are open.  Then others are, and whatever
finishes these comes behind the entry of the paragraph. -/
def TakesPlace (p : Package) (run : List RunItem) (k : Nat) (r : RunItem)
    (stack : List OpenItem) : Prop :=
  ∃ ps stack', Context.Emits p { lists := stack.map OpenItem.frame } r.bodyItems ps
      { lists := stack'.map OpenItem.frame } ∧
    Follows run (k + 1) stack' ∧
    ∀ {qs es}, Finishes (contentAt run) stack' qs es → ∃ ordered,
      Finishes (contentAt run) stack (ps ++ qs)
        (⟨k, parentOf run k, previousOf run k, ordered⟩ :: es) ∧
      (previousOf run k = none → ordered = p.isOrdered r.numId r.level)

section

variable (h : Follows run k stack) {r : RunItem} (hr : run[k]? = some r)

include hr

theorem levelNumber_eq_depthAt : levelNumber r.level = depthAt run k := by
  simp [depthAt, hr]

theorem numId_eq_numIdAt : r.numId = numIdAt run k := by
  simp [numIdAt, hr]

theorem pieces_eq_contentAt : r.pieces = contentAt run k := by
  simp [contentAt, hr]

include h

/-- A paragraph that goes on with an open list. -/
theorem Follows.takesPlace_next {o : OpenItem} (hstack : stack = ended ++ o :: outer)
    (ho : depthAt run o.item = depthAt run k ∧ numIdAt run o.item = numIdAt run k)
    (hended : ∀ e ∈ ended, depthAt run k < depthAt run e.item)
    (houter : ∀ e ∈ outer, depthAt run e.item < depthAt run k) : TakesPlace p run k r stack := by
  have hsplit : stack = (ended ++ [o]) ++ outer := by simpa using hstack
  -- the item before it is a sibling, and the lists inside of that one end
  have hparent : parentOf run k = outer.head?.map OpenItem.item := by
    refine h.parentOf_eq hsplit ?_ houter
    rw [List.forall_mem_append, List.forall_mem_singleton]
    exact ⟨fun e he => (hended e he).le, ho.1.ge⟩
  have hprevious : previousOf run k = some o.item := h.previousOf_next hstack ho hended houter
  have hframes := h.frames
  rw [hstack, List.forall_mem_append, List.forall_mem_cons] at hframes
  obtain ⟨hdeeper, hframe, -⟩ := hframes
  have hlevel : o.frame.level = depthAt run k := hframe.1.trans ho.1
  have hnumber : o.frame.numId = numIdAt run k := hframe.2.trans ho.2
  have hlists : ∀ f ∈ ended.map OpenItem.frame, depthAt run k < f.level := by
    rw [List.forall_mem_map]
    intro e he
    rw [(hdeeper e he).1]
    exact hended e he
  -- what is written for it closes those lists and the item, and opens a new item
  have hitem : Context.listItem p { lists := stack.map OpenItem.frame } r.numId r.level
      r.first.content =
        (closeFrames (ended.map OpenItem.frame) ++ [.finish "li", .start "li" []] ++
          Html.element "p" r.first.content, { lists := o.frame :: outer.map OpenItem.frame }) :=
    Context.listItem_next (levelNumber_eq_depthAt hr)
      (by rw [hstack, List.map_append, List.map_cons]) hlevel
      (hnumber.trans (numId_eq_numIdAt hr).symm) hlists
  refine ⟨_, ⟨k, o.frame⟩ :: outer, emits_runItem (List.cons_ne_nil _ _) hitem,
    h.cons hsplit hparent ⟨hlevel, hnumber⟩, fun hfinishes => ⟨o.frame.ordered, ?_, ?_⟩⟩
  · have hclosed := (hfinishes.next (m := o.item)).close ended
    rw [hstack, hparent, hprevious, pieces_eq_contentAt hr]
    simpa using hclosed
  · intro hnone
    rw [hprevious] at hnone
    cases hnone

/-- A paragraph that begins a list. -/
theorem Follows.takesPlace_first (hstack : stack = ended ++ outer)
    (hended : ∀ e ∈ ended, depthAt run k < depthAt run e.item ∨
      (depthAt run e.item = depthAt run k ∧ numIdAt run e.item ≠ numIdAt run k))
    (houter : ∀ e ∈ outer, depthAt run e.item < depthAt run k) : TakesPlace p run k r stack := by
  -- the innermost list that stays open is around it
  have hparent : parentOf run k = outer.head?.map OpenItem.item := by
    refine h.parentOf_eq hstack (fun e he => ?_) houter
    rcases hended e he with hlt | ⟨heq, -⟩
    · exact hlt.le
    · exact heq.ge
  have hprevious : previousOf run k = none := h.previousOf_first hstack hended houter
  have hframes := h.frames
  rw [hstack, List.forall_mem_append] at hframes
  obtain ⟨hinside, haround⟩ := hframes
  have hlists : ∀ f ∈ ended.map OpenItem.frame, depthAt run k < f.level ∨
      (f.level = depthAt run k ∧ f.numId ≠ r.numId) := by
    rw [List.forall_mem_map]
    intro e he
    obtain ⟨hlevel, hnumber⟩ := hinside e he
    rw [hlevel, hnumber, numId_eq_numIdAt hr]
    exact hended e he
  have hlists' : ∀ f ∈ outer.map OpenItem.frame, f.level < depthAt run k := by
    rw [List.forall_mem_map]
    intro e he
    rw [(haround e he).1]
    exact houter e he
  let ordered := p.isOrdered r.numId r.level
  -- what is written for it closes the other lists, and opens a list with an item
  have hitem : Context.listItem p { lists := stack.map OpenItem.frame } r.numId r.level
      r.first.content =
        (closeFrames (ended.map OpenItem.frame) ++
          [.start (listTag ordered) [], .start "li" []] ++ Html.element "p" r.first.content,
          { lists := ⟨r.numId, depthAt run k, ordered⟩ :: outer.map OpenItem.frame }) :=
    Context.listItem_first (levelNumber_eq_depthAt hr) rfl (by rw [hstack, List.map_append])
      hlists hlists'
  refine ⟨_, ⟨k, ⟨r.numId, depthAt run k, ordered⟩⟩ :: outer,
    emits_runItem (List.cons_ne_nil _ _) hitem,
    h.cons hstack hparent ⟨rfl, numId_eq_numIdAt hr⟩, fun hfinishes => ⟨_, ?_, fun _ => rfl⟩⟩
  have hclosed := hfinishes.first.close ended
  rw [hstack, hparent, hprevious, pieces_eq_contentAt hr]
  simpa using hclosed

/-- **One paragraph of a run.** -/
theorem Follows.takesPlace : TakesPlace p run k r stack := by
  rcases h.cases (depthAt run k) (numIdAt run k) with
    ⟨ended, o, outer, hstack, ho, hended, houter⟩ | ⟨ended, outer, hstack, hended, houter⟩
  · exact h.takesPlace_next hr hstack ho hended houter
  · exact h.takesPlace_first hr hstack hended houter

end

/-! ### The whole run -/

/-- An entry tells the place of a paragraph, and if the paragraph is the first of its list, the kind
of the list. -/
structure ListEntry.IsRight (p : Package) (run : List RunItem) (e : ListEntry) : Prop where
  parent : e.parent = parentOf run e.item
  previous : e.previous = previousOf run e.item
  ordered : e.previous = none → ∀ r ∈ run[e.item]?, e.ordered = p.isOrdered r.numId r.level

/-- **A run is rendered in front of what ends it**, from any of its paragraphs on.  The induction is
on the paragraphs that are left; each entry is put in front of those of the later ones. -/
theorem Follows.exists_finishes (h : Follows run k stack) {after : List BodyItem}
    (hafter : ∀ item ∈ after.head?, item.EndsLists) {rest : List RunItem}
    (hrest : run.drop k = rest) :
    ∃ ps es, Context.render p { lists := stack.map OpenItem.frame }
        (rest.flatMap RunItem.bodyItems ++ after) = ps ++ Context.render p {} after ∧
      Finishes (contentAt run) stack ps es ∧
      es.map ListEntry.item = List.range' k rest.length ∧ ∀ e ∈ es, e.IsRight p run := by
  induction rest generalizing k stack with
  | nil =>
    have hclosed : Finishes (contentAt run) stack (closeFrames (stack.map OpenItem.frame)) [] := by
      have htop : Finishes (contentAt run) [] _ _ := .top .nil
      simpa [ListForest.pieces, ListForest.entries] using htop.close stack
    exact ⟨_, _, render_endsLists hafter _, hclosed, rfl, List.forall_mem_nil _⟩
  | cons r rest ih =>
    have hr : run[k]? = some r := by
      rw [← List.head?_drop, hrest, List.head?_cons]
    have hrest' : run.drop (k + 1) = rest := by
      rw [← List.drop_drop, hrest, List.drop_one, List.tail_cons]
    -- one paragraph takes its place, and the others follow it
    obtain ⟨ps, stack', hemits, hfollows, hentry⟩ := h.takesPlace (p := p) hr
    obtain ⟨qs, es, hrender, hfinishes, hitems, hright⟩ := ih hfollows hrest'
    obtain ⟨ordered, hfinishes', hordered⟩ := hentry hfinishes
    refine ⟨ps ++ qs, _, ?_, hfinishes', ?_, List.forall_mem_cons.mpr ⟨⟨rfl, rfl, ?_⟩, hright⟩⟩
    · rw [List.flatMap_cons, List.append_assoc, hemits.render_append, hrender, List.append_assoc]
    · rw [List.map_cons, hitems, List.length_cons, List.range'_succ]
    · intro hnone r' hr'
      obtain rfl := Option.some_inj.mp (hr.symm.trans hr')
      exact hordered hnone

/-! ### Pieces of a run -/

/-- A missing numbering part gives no formats. -/
theorem isOrdered_iff_of_part {numbering : Option Xml.Node}
    (h : p.numbering = (numbering.map Package.numberingOf).getD []) (numId level : String) :
    p.isOrdered numId level = true ↔ ∃ root ∈ numbering, ∃ format,
      levelFormat? root numId level = some format ∧ format ≠ "bullet" ∧ format ≠ "none" := by
  cases numbering with
  | none =>
    have hnone : p.isOrdered numId level = false := by
      rw [Package.isOrdered, h]
      rfl
    simp [hnone]
  | some root => simp [Package.isOrdered_iff (show p.numbering = _ from h)]

/-- **A run of numbered paragraphs becomes a forest of lists.**  No list is open before the run, and
what follows it, if anything, is no part of a list; numbered paragraphs in a row always are part of
such a run (`exists_run`).

Each paragraph begins an item of its own, in order.  The item stands in that of the nearest earlier
paragraph of a smaller level; it follows the nearest earlier paragraph whose level is not greater,
if that has the same level and number, and begins a list otherwise.  A list is numbered if the
numbering part gives such a format for the number and the level of its first item. -/
theorem pieces_run {numbering : Option Xml.Node}
    (hnumbering : p.numbering = (numbering.map Package.numberingOf).getD [])
    {before after : List BodyItem}
    (hitems : bodyItems p = before ++ (run.flatMap RunItem.bodyItems ++ after)) (hrun : run ≠ [])
    (hbefore : (Context.after p {} before).lists = [])
    (hafter : ∀ item ∈ after.head?, item.EndsLists) :
    ∃ forest : ListForest,
      p.pieces = Context.render p {} before ++
        (forest.pieces (contentAt run) ++ Context.render p {} after) ∧
      (forest.entries none).map ListEntry.item = List.range run.length ∧
      ∀ e ∈ forest.entries none,
        e.parent = parentOf run e.item ∧ e.previous = previousOf run e.item ∧
        (e.previous = none → ∀ r ∈ run[e.item]?, (e.ordered = true ↔
          ∃ root ∈ numbering, ∃ format, levelFormat? root r.numId r.level = some format ∧
            format ≠ "bullet" ∧ format ≠ "none")) := by
  obtain ⟨ps, es, hrender, hfinishes, hentries, hright⟩ :=
    (follows_nil run).exists_finishes (p := p) hafter (List.drop_zero (l := run))
  obtain ⟨pieces, hpieces⟩ := Context.exists_emits_after p {} before
  set c := Context.after p {} before with hc
  -- the first paragraph of the run ends the code and the quotes that are held back
  have hfirst : c.render p (run.flatMap RunItem.bodyItems ++ after) =
      c.heldBack ++ Context.render p {} (run.flatMap RunItem.bodyItems ++ after) := by
    obtain ⟨r, rest, rfl⟩ := List.exists_cons_of_ne_nil hrun
    rw [List.flatMap_cons, List.append_assoc]
    exact render_heldBack hbefore r _
  have hclosing : Context.render p {} before = pieces ++ c.heldBack := by
    rw [hpieces.render_eq, Context.closing, hbefore]
    exact congrArg _ (List.append_nil _)
  cases hfinishes with
  | top forest =>
    refine ⟨forest, ?_, ?_, fun e he => ?_⟩
    · rw [Package.pieces, hitems, hpieces.render_append, hfirst, hclosing, List.append_assoc]
      exact congrArg (fun rendered => pieces ++ (c.heldBack ++ rendered)) hrender
    · rw [hentries, List.range_eq_range']
    · obtain ⟨hparent, hprevious, hordered⟩ := hright e he
      refine ⟨hparent, hprevious, fun hnone r hr => ?_⟩
      rw [hordered hnone r hr]
      exact isOrdered_iff_of_part hnumbering r.numId r.level

/-- A paragraph with properties and a text. -/
def outlineNode (properties : List Xml.Node) (text : String) : Xml.Node :=
  .element "p" [] [.element "pPr" [] properties, .element "r" [] [.element "t" [] [.text text]]]

/-- The numbering of a paragraph. -/
def outlinePlace (numId level : String) : Xml.Node :=
  .element "numPr" [] [.element "ilvl" [("val", level)] [], .element "numId" [("val", numId)] []]

/-- A numbering part in which the first level of the number 3 is numbered. -/
def outlineNumbering : Xml.Node :=
  .element "numbering" []
    [.element "abstractNum" [("abstractNumId", "0")]
      [.element "lvl" [("ilvl", "0")] [.element "numFmt" [("val", "decimal")] []],
      .element "lvl" [("ilvl", "1")] [.element "numFmt" [("val", "bullet")] []]],
    .element "num" [("numId", "3")] [.element "abstractNumId" [("val", "0")] []]]

/-- A package whose list starts at a deep level, has a list of another number in it, and comes back
to the top. -/
def outlinePackage : Package :=
  { document := .element "document" [] [.element "body" []
      [outlineNode [] "Before", outlineNode [outlinePlace "3" "2"] "a",
      outlineNode [outlinePlace "3" "0"] "b", outlineNode [outlinePlace "3" "1"] "c",
      outlineNode [outlinePlace "4" "1"] "d",
      outlineNode [.element "pStyle" [("val", "ListParagraph")] []] "e",
      outlineNode [outlinePlace "3" "0"] "f", outlineNode [] "After"]]
    relationships := []
    numbering := Package.numberingOf outlineNumbering }

/-- An item of the list without further paragraphs. -/
def outlineItem (numId level text : String) (h : numId ≠ "0") : RunItem where
  first := .ofNode outlinePackage (outlineNode [outlinePlace numId level] text)
  numId := numId
  level := level
  numbered := if_neg h
  further := []
  continues := List.forall_mem_nil _

/-- The items of the list. -/
def outlineRun : List RunItem :=
  [outlineItem "3" "2" "a" (by decide), outlineItem "3" "0" "b" (by decide),
    outlineItem "3" "1" "c" (by decide),
    { outlineItem "4" "1" "d" (by decide) with
      further := [.ofNode outlinePackage
        (outlineNode [.element "pStyle" [("val", "ListParagraph")] []] "e")]
      continues := List.forall_mem_singleton.mpr ⟨rfl, by decide⟩ },
    outlineItem "3" "0" "f" (by decide)]

theorem pieces_run_outline :
    (List.range 5).map (parentOf outlineRun) = [none, none, some 1, some 1, none] ∧
    (List.range 5).map (previousOf outlineRun) = [none, none, none, none, some 1] ∧
    ∃ forest : ListForest,
      outlinePackage.pieces = Html.element "p" [.text "Before"] ++
        (forest.pieces (contentAt outlineRun) ++ Html.element "p" [.text "After"]) ∧
      (forest.entries none).map ListEntry.item = List.range 5 ∧
      ∀ e ∈ forest.entries none,
        e.parent = parentOf outlineRun e.item ∧ e.previous = previousOf outlineRun e.item ∧
        (e.previous = none → ∀ r ∈ outlineRun[e.item]?, (e.ordered = true ↔
          ∃ root ∈ some outlineNumbering, ∃ format,
            levelFormat? root r.numId r.level = some format ∧
              format ≠ "bullet" ∧ format ≠ "none")) := by
  have hnumbering : outlinePackage.numbering =
      ((some outlineNumbering).map Package.numberingOf).getD [] := rfl
  have hitems : bodyItems outlinePackage =
      [.paragraph (.ofNode outlinePackage (outlineNode [] "Before"))] ++
        (outlineRun.flatMap RunItem.bodyItems ++
          [.paragraph (.ofNode outlinePackage (outlineNode [] "After"))]) := rfl
  have hforest := pieces_run hnumbering hitems (by decide) rfl (by
    intro item hitem
    obtain rfl := Option.some_inj.mp hitem
    exact ⟨rfl, by decide⟩)
  exact ⟨by decide, by decide, hforest⟩

end Interdoc.Docx

import Interdoc.Html.Draft
import Interdoc.Html.Parser
import Interdoc.Proofs.Html.Nesting

/-!
# Readers with open elements

A draft that only grows at its end numbers the nodes in the order of the text: an element comes
before its children, and these follow each other.  So the numbers are known from the tree:
`Draft.Holds` says that a draft holds a tree from a number on, and `Draft.Represents` that it is as
a state of reading (`Nesting`) says, with some elements still open.

A new element opens the next one (`Draft.Represents.open`), a character is added to the last text
or starts one (`Draft.Represents.char`), and the end of an element changes nothing but the point of
view (`Draft.Represents.close`).  A draft with nothing open is the tree that was read
(`Draft.Represents.toNode`).

A reader of HTML that has met nothing out of place keeps no more than the elements that are open:
its stack, the formatting in force and its mode are functions of them (`stackOf`, `formattingOf`,
`modeOf`), and its draft holds what they hold.  That a reader is such a reader for a state of
reading is `Builder.Represents`.  Its operations are then those of the state: to open an element
(`Holds.insert`), to close the innermost (`Holds.holds_pop`), to put an element without content or a
character.
-/

namespace Interdoc.Html

/-! ### Numbers -/

mutual

/-- The number of nodes in a tree. -/
def Node.count : Node → Nat
  | .text _ => 1
  | .element _ _ children => Node.countAmong children + 1
  | .other children => Node.countAmong children + 1

/-- The number of nodes in trees. -/
def Node.countAmong : List Node → Nat
  | [] => 0
  | node :: rest => Node.count node + Node.countAmong rest

end

open Node (countAmong)

theorem countAmong_append (ns ms : List Node) :
    countAmong (ns ++ ms) = countAmong ns + countAmong ms := by
  induction ns with
  | nil => simp [countAmong]
  | cons n ns ih => rw [List.cons_append, countAmong, countAmong, ih, Nat.add_assoc]

theorem countAmong_reverse (ns : List Node) : countAmong ns.reverse = countAmong ns := by
  induction ns with
  | nil => rfl
  | cons n ns ih =>
    rw [List.reverse_cons, countAmong_append, ih, countAmong, countAmong, countAmong, Nat.add_zero,
      Nat.add_comm]

/-- The numbers of trees that are numbered one after the other. -/
def starts : Nat → List Node → List Nat
  | _, [] => []
  | i, node :: rest => i :: starts (i + node.count) rest

theorem starts_append (i : Nat) (ns ms : List Node) :
    starts i (ns ++ ms) = starts i ns ++ starts (i + countAmong ns) ms := by
  induction ns generalizing i with
  | nil => rfl
  | cons n ns ih =>
    rw [List.cons_append, starts, starts, ih, countAmong, Nat.add_assoc, List.cons_append]

/-! ### Finished trees -/

mutual

/-- A draft holds a tree from a number on. -/
def Draft.Holds (d : Draft) (i : Nat) : Node → Prop
  | .text s => ∃ parent, d.nodes[i]? = some ⟨.text s.toList.reverse, parent, #[]⟩
  | .element tag attributes children =>
    (∃ parent, d.nodes[i]? =
      some ⟨.element ⟨.html, tag⟩ attributes, parent, (starts (i + 1) children).toArray⟩) ∧
    Draft.HoldsAmong d (i + 1) children
  | .other _ => False

/-- A draft holds trees from a number on. -/
def Draft.HoldsAmong (d : Draft) (i : Nat) : List Node → Prop
  | [] => True
  | node :: rest => Draft.Holds d i node ∧ Draft.HoldsAmong d (i + node.count) rest

end

namespace Draft

variable {d d' : Draft}

theorem holdsAmong_append {i : Nat} {ns ms : List Node} :
    d.HoldsAmong i (ns ++ ms) ↔ d.HoldsAmong i ns ∧ d.HoldsAmong (i + countAmong ns) ms := by
  induction ns generalizing i with
  | nil => simp [HoldsAmong, countAmong]
  | cons n ns ih =>
    rw [List.cons_append, HoldsAmong, HoldsAmong, ih, countAmong, Nat.add_assoc, and_assoc]

mutual

/-- Only the nodes of a tree matter for it. -/
theorem Holds.congr {i : Nat} {node : Node} (h : d.Holds i node)
    (hsame : ∀ j, i ≤ j → j < i + node.count → d'.nodes[j]? = d.nodes[j]?) : d'.Holds i node := by
  cases node with
  | text s =>
    obtain ⟨parent, hnode⟩ := h
    exact ⟨parent, (hsame i (Nat.le_refl i) (by simp [Node.count])).trans hnode⟩
  | element tag attributes children =>
    obtain ⟨⟨parent, hnode⟩, hchildren⟩ := h
    rw [Node.count] at hsame
    exact ⟨⟨parent, (hsame i (Nat.le_refl i) (by omega)).trans hnode⟩,
      HoldsAmong.congr hchildren fun j hmin hmax => hsame j (by omega) (by omega)⟩
  | other children => exact h.elim

theorem HoldsAmong.congr {i : Nat} {nodes : List Node} (h : d.HoldsAmong i nodes)
    (hsame : ∀ j, i ≤ j → j < i + countAmong nodes → d'.nodes[j]? = d.nodes[j]?) :
    d'.HoldsAmong i nodes := by
  cases nodes with
  | nil => exact trivial
  | cons node rest =>
    obtain ⟨hnode, hrest⟩ := h
    rw [countAmong] at hsame
    exact ⟨Holds.congr hnode fun j hmin hmax => hsame j hmin (by omega),
      HoldsAmong.congr hrest fun j hmin hmax => hsame j (by omega) (by omega)⟩

end

mutual

/-- **The tree below a number is the one that is held there**, if there is room for its depth. -/
theorem Holds.toNodeWithin {i : Nat} {node : Node} (h : d.Holds i node) {depth : Nat}
    (hdepth : node.count ≤ depth) : d.toNodeWithin depth i = node := by
  cases node with
  | text s =>
    obtain ⟨parent, hnode⟩ := h
    rw [Node.count] at hdepth
    obtain ⟨depth, rfl⟩ : ∃ n, depth = n + 1 := ⟨depth - 1, by omega⟩
    rw [Draft.toNodeWithin, hnode]
    simp
  | element tag attributes children =>
    obtain ⟨⟨parent, hnode⟩, hchildren⟩ := h
    rw [Node.count] at hdepth
    obtain ⟨depth, rfl⟩ : ∃ n, depth = n + 1 := ⟨depth - 1, by omega⟩
    have hmap := HoldsAmong.map_toNodeWithin hchildren
      (show countAmong children ≤ depth by omega)
    rw [Draft.toNodeWithin, hnode]
    simp only [hmap]
  | other children => exact h.elim

theorem HoldsAmong.map_toNodeWithin {i : Nat} {nodes : List Node} (h : d.HoldsAmong i nodes)
    {depth : Nat} (hdepth : countAmong nodes ≤ depth) :
    (starts i nodes).map (d.toNodeWithin depth) = nodes := by
  cases nodes with
  | nil => rfl
  | cons node rest =>
    obtain ⟨hnode, hrest⟩ := h
    rw [countAmong] at hdepth
    rw [starts, List.map_cons, Holds.toNodeWithin hnode (by omega),
      HoldsAmong.map_toNodeWithin hrest (by omega)]

end

/-! ### Growing drafts -/

/-- A draft with a new node behind the children of another. -/
def addTo (d : Draft) (parent : Nat) (content : DraftContent) : Draft :=
  (d.add content).2.append parent d.nodes.size

theorem nodes_addTo {parent : Nat} (hparent : parent < d.nodes.size) (content : DraftContent)
    (j : Nat) : (d.addTo parent content).nodes[j]? =
      if j = d.nodes.size then some ⟨content, some parent, #[]⟩
      else if j = parent then
        d.nodes[parent]?.map fun x => { x with children := x.children.push d.nodes.size }
      else d.nodes[j]? := by
  have hnew : (d.add content).2.parent? d.nodes.size = none := by
    simp [add, parent?]
  rw [addTo, append, detach, hnew]
  simp only [modify, add, Array.getElem?_modify, Array.getElem?_push]
  by_cases hj : j = d.nodes.size
  · subst hj
    rw [if_pos rfl, if_pos rfl, if_neg (by omega), if_pos rfl]
    rfl
  · rw [if_neg (Ne.symm hj), if_neg hj, if_neg hj]
    by_cases hp : j = parent
    · rw [if_pos hp.symm, if_pos hp, hp]
    · rw [if_neg (Ne.symm hp), if_neg hp]

theorem size_addTo (parent : Nat) (content : DraftContent) :
    (d.addTo parent content).nodes.size = d.nodes.size + 1 := by
  have hnew : (d.add content).2.parent? d.nodes.size = none := by
    simp [add, parent?]
  rw [addTo, append, detach, hnew]
  simp [modify, add]

end Draft

/-! ### Open elements -/

/-- The number of the innermost of open elements, and of the document if there are none. -/
def topOf : List OpenElement → Nat
  | [] => 0
  | e :: outer => topOf outer + 1 + countAmong e.before

/-- What the innermost of open elements is, and the document if there are none. -/
def contentOf : List OpenElement → DraftContent
  | [] => .root
  | e :: _ => .element ⟨.html, e.tag⟩ e.attributes

namespace Draft

/-- A draft holds the innermost of open elements with the nodes in it; what is open inside of it is
given by its number. -/
def HoldsTop (d : Draft) (opened : List OpenElement) (reversed : List Node)
    (inner : List Nat) : Prop :=
  (∃ parent, d.nodes[topOf opened]? = some ⟨contentOf opened, parent,
    (starts (topOf opened + 1) reversed.reverse ++ inner).toArray⟩) ∧
  d.HoldsAmong (topOf opened + 1) reversed.reverse

/-- A draft holds what is around the innermost of open elements. -/
def HoldsOuter (d : Draft) : List OpenElement → Prop
  | [] => True
  | e :: outer => d.HoldsTop outer e.before [topOf (e :: outer)] ∧ HoldsOuter d outer

/-- A draft is as a state of reading says, and holds nothing else. -/
structure Represents (d : Draft) (n : Nesting) : Prop where
  size : d.nodes.size = topOf n.opened + 1 + countAmong n.reversed
  top : d.HoldsTop n.opened n.reversed []
  outer : d.HoldsOuter n.opened

variable {d d' : Draft} {opened outer : List OpenElement} {reversed : List Node}
  {inner : List Nat} {n : Nesting}

theorem HoldsTop.congr (h : d.HoldsTop opened reversed inner)
    (hsame : ∀ j, topOf opened ≤ j → j < topOf opened + 1 + countAmong reversed →
      d'.nodes[j]? = d.nodes[j]?) : d'.HoldsTop opened reversed inner := by
  obtain ⟨⟨parent, hnode⟩, hamong⟩ := h
  refine ⟨⟨parent, (hsame _ (Nat.le_refl _) (by omega)).trans hnode⟩,
    hamong.congr fun j hmin hmax => hsame j (by omega) ?_⟩
  rwa [countAmong_reverse] at hmax

theorem HoldsOuter.congr (h : d.HoldsOuter opened)
    (hsame : ∀ j < topOf opened, d'.nodes[j]? = d.nodes[j]?) : d'.HoldsOuter opened := by
  induction opened with
  | nil => exact trivial
  | cons e outer ih =>
    rw [topOf] at hsame
    exact ⟨h.1.congr fun j _ hmax => hsame j hmax, ih h.2 fun j hj => hsame j (by omega)⟩

/-- A finished tree behind the others is like one whose children are still open. -/
theorem holdsTop_cons {node : Node} : d.HoldsTop opened (node :: reversed) [] ↔
    d.HoldsTop opened reversed [topOf opened + 1 + countAmong reversed] ∧
      d.Holds (topOf opened + 1 + countAmong reversed) node := by
  rw [HoldsTop, HoldsTop, List.reverse_cons, starts_append, holdsAmong_append,
    countAmong_reverse, List.append_nil]
  simp only [starts, HoldsAmong, and_true]
  exact and_assoc.symm

/-- **The end of an element** changes nothing but the point of view. -/
theorem Represents.close {e : OpenElement} (h : d.Represents ⟨e :: outer, reversed⟩) :
    d.Represents ⟨outer, .element e.tag e.attributes reversed.reverse :: e.before⟩ := by
  obtain ⟨hsize, ⟨hnode, hamong⟩, houter⟩ := h
  rw [List.append_nil] at hnode
  refine ⟨?_, holdsTop_cons.mpr ⟨houter.1, hnode, hamong⟩, houter.2⟩
  simp only [topOf] at hsize
  simp only [hsize, countAmong, Node.count, countAmong_reverse]
  omega

/-- A new node is inside of what was innermost. -/
theorem Represents.addTo (h : d.Represents n) (content : DraftContent) :
    (d.addTo (topOf n.opened) content).HoldsTop n.opened n.reversed [d.nodes.size] ∧
      (d.addTo (topOf n.opened) content).HoldsOuter n.opened := by
  obtain ⟨hsize, ⟨⟨parent, hnode⟩, hamong⟩, houter⟩ := h
  have htop : topOf n.opened < d.nodes.size := by omega
  have hnodes := nodes_addTo htop content
  refine ⟨⟨⟨parent, ?_⟩, hamong.congr fun j hmin hmax => ?_⟩, houter.congr fun j hj => ?_⟩
  · rw [hnodes, if_neg (by omega), if_pos rfl, hnode]
    simp
  · rw [countAmong_reverse] at hmax
    rw [hnodes, if_neg (by omega), if_neg (by omega)]
  · rw [hnodes, if_neg (by omega), if_neg (by omega)]

/-- **A new element is opened.** -/
theorem Represents.open (h : d.Represents n) (tag : String)
    (attributes : List (String × String)) :
    (d.addTo (topOf n.opened) (.element ⟨.html, tag⟩ attributes)).Represents
      ⟨⟨tag, attributes, n.reversed⟩ :: n.opened, []⟩ := by
  have hsize := h.size
  have htop : topOf (⟨tag, attributes, n.reversed⟩ :: n.opened) = d.nodes.size := by
    rw [topOf, hsize]
  obtain ⟨hnewTop, hnewOuter⟩ := h.addTo (.element ⟨.html, tag⟩ attributes)
  refine ⟨?_, ⟨⟨some (topOf n.opened), ?_⟩, trivial⟩, ?_, hnewOuter⟩
  · rw [size_addTo, htop, countAmong]
  · rw [htop, nodes_addTo (by omega), if_pos rfl]
    rfl
  · rw [htop]
    exact hnewTop

/-! ### Texts -/

/-- The last child of the innermost of open elements. -/
theorem Represents.back?_children (h : d.Represents n) :
    (d.children (topOf n.opened)).back? =
      match n.reversed with
      | [] => none
      | _ :: rest => some (topOf n.opened + 1 + countAmong rest) := by
  obtain ⟨parent, hnode⟩ := h.top.1
  rw [children, hnode]
  cases n.reversed with
  | nil => rfl
  | cons node rest =>
    rw [List.reverse_cons, starts_append, countAmong_reverse]
    simp [starts]

/-- A character behind a text. -/
theorem Represents.extendText? {s : String} (h : d.Represents ⟨opened, .text s :: reversed⟩)
    (c : Char) : ∃ d', d.extendText? (some (topOf opened + 1 + countAmong reversed)) c = some d' ∧
      d'.Represents ⟨opened, .text (s ++ String.singleton c) :: reversed⟩ := by
  obtain ⟨hsize, htop, houter⟩ := h
  obtain ⟨hbefore, parent, hnode⟩ := holdsTop_cons.mp htop
  set last := topOf opened + 1 + countAmong reversed with hlast
  refine ⟨_, by rw [Draft.extendText?, hnode], ?_⟩
  have hnodes (f : DraftNode → DraftNode) (j : Nat) : (d.modify last f).nodes[j]? =
      if last = j then d.nodes[j]?.map f else d.nodes[j]? := Array.getElem?_modify
  refine ⟨?_, holdsTop_cons.mpr ⟨?_, parent, ?_⟩, ?_⟩
  · simp only [modify, Array.size_modify, hsize, countAmong, Node.count]
  · exact hbefore.congr fun j _ hmax => by rw [hnodes, if_neg (Nat.ne_of_gt hmax)]
  · rw [← hlast, hnodes, if_pos rfl, hnode]
    simp
  · exact houter.congr fun j hj => by rw [hnodes, if_neg (by simp only at hj; omega)]

/-- A character behind anything but a text. -/
theorem Represents.addText (h : d.Represents n) (c : Char) :
    (d.addTo (topOf n.opened) (.text [c])).Represents
      { n with reversed := .text (String.singleton c) :: n.reversed } := by
  obtain ⟨htop, houter⟩ := h.addTo (.text [c])
  refine ⟨?_, holdsTop_cons.mpr ⟨?_, some (topOf n.opened), ?_⟩, houter⟩
  · simp only [size_addTo, h.size, countAmong, Node.count]
    omega
  · rwa [← h.size]
  · rw [← h.size, nodes_addTo (by have := h.size; omega), if_pos rfl]
    simp

/-- **A character is added** to the last text, or starts one. -/
theorem Represents.char (h : d.Represents n) (c : Char) :
    (d.appendChar (topOf n.opened) c).Represents
      { n with reversed := pushText (String.singleton c) n.reversed } := by
  have hnonempty : String.singleton c ≠ "" := by simp
  have hback := h.back?_children
  obtain ⟨opened, reversed⟩ := n
  -- only if the last child is a text it is extended
  have hnew (hextend : d.extendText? (d.children (topOf opened)).back? c = none)
      (hpush : pushText (String.singleton c) reversed =
        .text (String.singleton c) :: reversed) :
      (d.appendChar (topOf opened) c).Represents
        ⟨opened, pushText (String.singleton c) reversed⟩ := by
    rw [appendChar, hextend, hpush]
    exact h.addText c
  cases reversed with
  | nil => exact hnew (by rw [hback]; rfl) (if_neg hnonempty)
  | cons node rest =>
    obtain ⟨-, hlast⟩ := holdsTop_cons.mp h.top
    cases node with
    | text s =>
      obtain ⟨d', hextend, hd'⟩ := h.extendText? c
      rw [appendChar, hback]
      simp only [hextend]
      rwa [pushText, if_neg hnonempty]
    | element tag attributes children =>
      obtain ⟨⟨parent, hnode⟩, -⟩ := hlast
      refine hnew ?_ (if_neg hnonempty)
      rw [hback, Draft.extendText?, hnode]
    | other children => exact hlast.elim

/-! ### The finished tree -/

/-- **A draft with nothing open is the tree that was read.** -/
theorem Represents.toNode {nodes : List Node} (h : d.Represents ⟨[], nodes.reverse⟩) :
    d.toNode document = .other nodes := by
  obtain ⟨hsize, ⟨⟨parent, hnode⟩, hamong⟩, -⟩ := h
  simp only [topOf, countAmong_reverse] at hsize
  simp only [topOf, contentOf, List.reverse_reverse, List.append_nil] at hnode hamong
  have hmap := hamong.map_toNodeWithin (show countAmong nodes ≤ d.nodes.size by omega)
  rw [Draft.toNode, Draft.toNodeWithin, document, hnode]
  simp only [hmap]

end Draft

/-! ### What open elements say -/

/-- The numbers of open elements. -/
def stackOf : List OpenElement → List Nat
  | [] => []
  | e :: outer => topOf (e :: outer) :: stackOf outer

/-- The names of the cells of a table. -/
def cellTags : List String := ["td", "th"]

/-- The names of the elements that stay in force when they are cut off. -/
def recordedTags : List String := "a" :: Builder.formattingNames

/-- The formatting in force in open elements, with a mark for each cell. -/
def formattingOf : List OpenElement → List Formatting
  | [] => []
  | e :: outer =>
    if cellTags.contains e.tag then .mark :: formattingOf outer
    else if recordedTags.contains e.tag then
      .element (topOf (e :: outer)) ⟨e.tag, e.attributes, false⟩ :: formattingOf outer
    else formattingOf outer

/-- The mode in open elements, by their names: that of the innermost part of a table, and that of
the body if there is none. -/
def modeOf : List String → Mode
  | [] => .inBody
  | tag :: outer =>
    if cellTags.contains tag then .inCell
    else if tag = "tr" then .inRow
    else if tag = "tbody" then .inTableBody
    else if tag = "table" then .inTable
    else modeOf outer

section

variable {e : OpenElement} {outer : List OpenElement}

/-- A cell marks the formatting that is in force around it. -/
theorem formattingOf_cons_of_cell (h : cellTags.contains e.tag = true) :
    formattingOf (e :: outer) = .mark :: formattingOf outer :=
  if_pos h

theorem formattingOf_cons_of_recorded (hcell : cellTags.contains e.tag = false)
    (hrecorded : recordedTags.contains e.tag = true) :
    formattingOf (e :: outer) =
      .element (topOf (e :: outer)) ⟨e.tag, e.attributes, false⟩ :: formattingOf outer := by
  rw [formattingOf, hcell, if_neg Bool.false_ne_true, if_pos hrecorded]

theorem formattingOf_cons_of_not_recorded (hcell : cellTags.contains e.tag = false)
    (hrecorded : recordedTags.contains e.tag = false) :
    formattingOf (e :: outer) = formattingOf outer := by
  rw [formattingOf, hcell, hrecorded, if_neg Bool.false_ne_true, if_neg Bool.false_ne_true]

/-- An element that is no part of a table does not change the mode. -/
theorem modeOf_cons_of_ne {tag : String} (hcell : cellTags.contains tag = false)
    (hrow : tag ≠ "tr") (hbody : tag ≠ "tbody") (htable : tag ≠ "table") (outer : List String) :
    modeOf (tag :: outer) = modeOf outer := by
  rw [modeOf, hcell, if_neg Bool.false_ne_true, if_neg hrow, if_neg hbody, if_neg htable]

end

/-- The names of the open elements, the innermost first. -/
def Nesting.tags (n : Nesting) : List String :=
  n.opened.map (·.tag)

theorem head?_stackOf (opened : List OpenElement) :
    (stackOf opened).head?.getD Draft.document = topOf opened := by
  cases opened <;> rfl

theorem topOf_lt (e : OpenElement) (outer : List OpenElement) :
    topOf outer < topOf (e :: outer) := by
  rw [topOf]
  omega

/-- The numbers of the formatting in force are those of open elements. -/
theorem le_topOf_of_mem_formattingOf {opened : List OpenElement} {m : Nat} {tag : Tag}
    (h : .element m tag ∈ formattingOf opened) : m ≤ topOf opened := by
  induction opened with
  | nil => cases h
  | cons e outer ih =>
    have houter : .element m tag ∈ formattingOf outer → m ≤ topOf (e :: outer) := fun hmem =>
      Nat.le_trans (ih hmem) (Nat.le_of_lt (topOf_lt e outer))
    rw [formattingOf] at h
    split at h
    · rcases List.mem_cons.mp h with heq | hmem
      · cases heq
      · exact houter hmem
    · split at h
      · rcases List.mem_cons.mp h with heq | hmem
        · cases heq
          exact Nat.le_refl _
        · exact houter hmem
      · exact houter h

/-- A draft knows the name of each open element. -/
theorem Draft.Represents.names {d : Draft} {n : Nesting} (h : d.Represents n) :
    List.Forall₂ (fun m e => d.name? m = some ⟨.html, e.tag⟩) (stackOf n.opened) n.opened := by
  obtain ⟨-, htop, houter⟩ := h
  obtain ⟨opened, reversed⟩ := n
  have hname {e : OpenElement} {outer : List OpenElement} {reversed : List Node}
      {inner : List Nat} (h : d.HoldsTop (e :: outer) reversed inner) :
      d.name? (topOf (e :: outer)) = some ⟨.html, e.tag⟩ := by
    obtain ⟨⟨parent, hnode⟩, -⟩ := h
    rw [name?, hnode]
    rfl
  have hall : ∀ (opened : List OpenElement) (reversed : List Node) (inner : List Nat),
      d.HoldsTop opened reversed inner → d.HoldsOuter opened →
      List.Forall₂ (fun m e => d.name? m = some ⟨.html, e.tag⟩) (stackOf opened) opened := by
    intro opened
    induction opened with
    | nil => exact fun _ _ _ _ => .nil
    | cons e outer ih =>
      exact fun _ _ htop houter => .cons (hname htop) (ih e.before _ houter.1 houter.2)
  exact hall opened reversed [] htop houter

namespace Builder

/-- A reader has the open elements of a state of reading, and nothing out of place. -/
structure Holds (b : Builder) (n : Nesting) : Prop where
  draft : b.draft.Represents n
  stack : b.stack = stackOf n.opened
  templates : b.templates = []
  templateModes : b.templateModes = []
  fosters : b.fosters = false

/-- A reader is as a state of reading says.  A line feed is dropped at most at the start of a
preformatted text. -/
structure Represents (b : Builder) (n : Nesting) : Prop extends b.Holds n where
  formatting : b.formatting = formattingOf n.opened
  mode : b.mode = modeOf n.tags
  skips : b.skipsLineFeed = true → n.tags.head? = some "pre"

variable {b : Builder} {n : Nesting} {e : OpenElement} {outer : List OpenElement}
  {reversed : List Node}

/-- The mode does not matter for what is open. -/
theorem Holds.goTo (h : b.Holds n) (mode : Mode) : (b.goTo mode).Holds n :=
  ⟨h.draft, h.stack, h.templates, h.templateModes, h.fosters⟩

/-- The formatting in force does not matter for what is open. -/
theorem Holds.withFormatting (h : b.Holds n) (formatting : List Formatting) :
    ({ b with formatting := formatting } : Builder).Holds n :=
  ⟨h.draft, h.stack, h.templates, h.templateModes, h.fosters⟩

/-- A reader that drops no line feed is as a state of reading says if it has the open elements, with
their formatting and in their mode. -/
theorem Holds.represents (h : b.Holds n) (hformatting : b.formatting = formattingOf n.opened)
    (hmode : b.mode = modeOf n.tags) (hskips : b.skipsLineFeed = false) : b.Represents n :=
  ⟨h, hformatting, hmode, fun hskip => absurd (hskips.symm.trans hskip) Bool.false_ne_true⟩

/-- The mode follows from the name of the innermost element where that is a part of a table. -/
theorem Represents.mode_of_tag {tag : String} (h : b.Represents ⟨e :: outer, reversed⟩)
    (htag : e.tag = tag) : b.mode = modeOf (tag :: outer.map (·.tag)) := by
  rw [h.mode, Nesting.tags, List.map_cons, htag]

/-! ### Categories -/

/-- The innermost open element is in the categories that its name is in. -/
theorem Holds.satisfies_top (h : b.Holds ⟨e :: outer, reversed⟩) (p : Category) :
    b.satisfies p (topOf (e :: outer)) = p ⟨.html, e.tag⟩ := by
  have hnames := h.draft.names
  rw [stackOf, List.forall₂_cons] at hnames
  rw [satisfies, hnames.1]
  rfl

theorem Holds.currentIs (h : b.Holds ⟨e :: outer, reversed⟩) (p : Category) :
    b.currentIs p = p ⟨.html, e.tag⟩ := by
  rw [Builder.currentIs, h.stack]
  exact h.satisfies_top p

/-- The open elements in a category are those whose names are in it. -/
theorem Holds.any_satisfies (h : b.Holds n) (p : Category) :
    b.stack.any (b.satisfies p) = n.opened.any fun e => p ⟨.html, e.tag⟩ := by
  rw [h.stack]
  have hnames := h.draft.names
  generalize stackOf n.opened = stack at hnames ⊢
  generalize n.opened = opened at hnames ⊢
  induction hnames with
  | nil => rfl
  | cons hname _ ih => rw [List.any_cons, List.any_cons, ih, satisfies, hname, Option.any_some]

theorem inScopeAmong_of_any_eq_false {bounds : Category} {p : Nat → Bool} {stack : List Nat}
    (h : stack.any p = false) : b.inScopeAmong bounds p stack = false := by
  induction stack with
  | nil => rfl
  | cons m stack ih =>
    rw [List.any_cons, Bool.or_eq_false_iff] at h
    rw [inScopeAmong, h.1, ih h.2, Bool.and_false, Bool.or_false]

/-- What is not open is in no scope. -/
theorem Holds.inScope_eq_false (h : b.Holds n) {p : Category}
    (hnone : ∀ e ∈ n.opened, p ⟨.html, e.tag⟩ = false) (bounds : Category) :
    b.inScope bounds p = false := by
  refine inScopeAmong_of_any_eq_false ?_
  rw [h.any_satisfies, List.any_eq_false]
  exact fun e he => by rw [hnone e he]; exact Bool.false_ne_true

/-- The innermost open element is in every scope. -/
theorem Holds.inScope_top (h : b.Holds ⟨e :: outer, reversed⟩) {p : Category}
    (hp : p ⟨.html, e.tag⟩ = true) (bounds : Category) : b.inScope bounds p = true := by
  rw [inScope, h.stack, stackOf, inScopeAmong, h.satisfies_top, hp, Bool.true_or]

/-! ### Opening -/

theorem Holds.place (h : b.Holds n) : b.place = .last (topOf n.opened) := by
  rw [Builder.place, h.stack, head?_stackOf, placeFor, h.fosters, Bool.false_and,
    if_neg Bool.false_ne_true, placeInside, h.templates]
  rfl

/-- A new element is put behind the children of the innermost. -/
theorem Holds.insertElement (h : b.Holds n) {tag : Tag} (htag : tag.name ≠ "template") :
    b.insertElement .html tag = (b.draft.nodes.size, { b with
      draft := b.draft.addTo (topOf n.opened) (.element ⟨.html, tag.name⟩ tag.attributes) }) := by
  have hcreate : b.create .html tag = (b.draft.nodes.size,
      { b with draft := (b.draft.add (.element ⟨.html, tag.name⟩ tag.attributes)).2 }) := by
    rw [create]
    simp only [htag, and_false, if_false]
    rfl
  have hplace : ({ b with draft := (b.draft.add (.element ⟨.html, tag.name⟩ tag.attributes)).2 } :
      Builder).place = .last (topOf n.opened) := by
    rw [Builder.place, h.stack, head?_stackOf, placeFor, h.fosters, Bool.false_and,
      if_neg Bool.false_ne_true, placeInside, h.templates]
    rfl
  rw [Builder.insertElement, hcreate]
  simp only [hplace]
  rfl

/-- **A new element is opened** in the innermost. -/
theorem Holds.insert (h : b.Holds n) {tag : Tag} (htag : tag.name ≠ "template") :
    b.insert tag = { b with
      draft := b.draft.addTo (topOf n.opened) (.element ⟨.html, tag.name⟩ tag.attributes)
      stack := topOf (⟨tag.name, tag.attributes, n.reversed⟩ :: n.opened) :: b.stack } := by
  rw [Builder.insert, openElement, h.insertElement htag, topOf, ← h.draft.size]

/-- The innermost element after one was opened. -/
theorem Holds.holds_insert (h : b.Holds n) (tag : Tag) (htag : tag.name ≠ "template") :
    (b.insert tag).Holds ⟨⟨tag.name, tag.attributes, n.reversed⟩ :: n.opened, []⟩ := by
  rw [h.insert htag]
  refine ⟨h.draft.open tag.name tag.attributes, ?_, h.templates, h.templateModes, h.fosters⟩
  rw [stackOf, h.stack]

/-- An element without content is opened and closed. -/
theorem Holds.holds_insertVoid (h : b.Holds n) {tag : Tag} (htag : tag.name ≠ "template") :
    (b.insertVoid tag).Holds
      { n with reversed := .element tag.name tag.attributes [] :: n.reversed } := by
  rw [insertVoid, h.insertElement htag]
  exact ⟨(h.draft.open tag.name tag.attributes).close, h.stack, h.templates, h.templateModes,
    h.fosters⟩

/-- A character is put into the innermost element. -/
theorem Holds.holds_insertChar (h : b.Holds n) (hopened : n.opened ≠ []) (c : Char) :
    (b.insertChar c).Holds { n with reversed := pushText (String.singleton c) n.reversed } ∧
      b.insertChar c = { b with draft := (b.insertChar c).draft } := by
  have hchar : b.insertChar c = { b with draft := b.draft.appendChar (topOf n.opened) c } := by
    have htop : topOf n.opened ≠ Draft.document := by
      cases hcons : n.opened with
      | nil => exact absurd hcons hopened
      | cons e outer =>
        have hlt := topOf_lt e outer
        exact Nat.ne_of_gt (Nat.lt_of_le_of_lt (Nat.zero_le _) hlt)
    rw [insertChar, h.place]
    simp only [htop, if_false]
  rw [hchar]
  exact ⟨⟨h.draft.char c, h.stack, h.templates, h.templateModes, h.fosters⟩, rfl⟩

/-! ### Closing -/

/-- The innermost element closed. -/
theorem Holds.holds_pop (h : b.Holds ⟨e :: outer, reversed⟩) :
    b.pop.Holds ⟨outer, .element e.tag e.attributes reversed.reverse :: e.before⟩ := by
  refine ⟨h.draft.close, ?_, h.templates, h.templateModes, h.fosters⟩
  rw [pop, h.stack]
  rfl

theorem Holds.closeTo (h : b.Holds ⟨e :: outer, reversed⟩) {p : Category}
    (hp : p ⟨.html, e.tag⟩ = true) : b.closeTo p = b.pop := by
  rw [Builder.closeTo, pop, h.stack, stackOf,
    List.dropWhile_cons_of_neg (by rw [h.satisfies_top, hp]; decide)]

theorem Holds.closeInside (h : b.Holds ⟨e :: outer, reversed⟩) {p : Category}
    (hp : p ⟨.html, e.tag⟩ = true) : b.closeInside p = b := by
  rw [Builder.closeInside, h.stack, stackOf,
    List.dropWhile_cons_of_neg (by rw [h.satisfies_top, hp]; decide), ← stackOf, ← h.stack]

theorem Holds.closeImplied (h : b.Holds ⟨e :: outer, reversed⟩) {p : Category}
    (hp : p ⟨.html, e.tag⟩ = false) : b.closeImplied p = b := by
  rw [Builder.closeImplied, h.stack, stackOf,
    List.dropWhile_cons_of_neg (by rw [h.satisfies_top, hp]; decide), ← stackOf, ← h.stack]

theorem Holds.closeElement (h : b.Holds ⟨e :: outer, reversed⟩)
    (hend : Category.mayEnd ⟨.html, e.tag⟩ = false) : b.closeElement e.tag = b.pop := by
  rw [Builder.closeElement, h.closeImplied hend, h.closeTo (by simp [Category.isHtml])]

/-- Where no paragraph is open, none is closed. -/
theorem Holds.closeParagraph (h : b.Holds n) (hp : "p" ∉ n.tags) : b.closeParagraph = b := by
  have hnone : ∀ e ∈ n.opened, Category.isHtml "p" ⟨.html, e.tag⟩ = false := fun e he => by
    have hne : e.tag ≠ "p" := fun heq => hp (heq ▸ List.mem_map_of_mem he)
    simp [Category.isHtml, hne]
  rw [Builder.closeParagraph, h.inScope_eq_false hnone, if_neg Bool.false_ne_true]

end Builder

end Interdoc.Html

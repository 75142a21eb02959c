import Interdoc.Proofs.Docx.Items

/-!
# Numbering, and written packages

A numbering part gives formats to the levels of its numbers (`levelFormat?`), and these formats say
which lists are numbered (`Package.isOrdered_iff`).

The parts of a written package have trees, and what a reader finds in them is the layout: the items
of the body, and for each list and level whether it is numbered (`Layout.exists_package`).  Each
list has a definition and a number of its own, so the look-ups by number are exact.
-/

namespace Interdoc.Docx

open Xml (Node unbroken)
open Xml.Markup (Means mapM_value?_plain means_leaf means_group means_element)

/-! ### Look-ups -/

theorem lookupLast?_eq_some {α : Type} {key : String} {value : α} {pairs : List (String × α)}
    (hmem : (key, value) ∈ pairs) (hunique : ∀ v, (key, v) ∈ pairs → v = value) :
    lookupLast? key pairs = some value := by
  rw [lookupLast?]
  rw [← List.mem_reverse] at hmem
  replace hunique : ∀ v, (key, v) ∈ pairs.reverse → v = value := fun v hv =>
    hunique v (List.mem_reverse.mp hv)
  generalize pairs.reverse = pairs at hmem hunique
  induction pairs with
  | nil => cases hmem
  | cons pair pairs ih =>
    obtain ⟨k, v⟩ := pair
    rw [List.lookup_cons]
    by_cases hk : key = k
    · subst hk
      rw [beq_self_eq_true, hunique v List.mem_cons_self]
    · rw [beq_eq_false_iff_ne.mpr hk]
      refine ih ?_ fun w hw => hunique w (List.mem_cons_of_mem _ hw)
      exact (List.mem_cons.mp hmem).resolve_left fun h => hk (congrArg Prod.fst h)

/-- A look-up among the pairs of nodes finds the last node that has the key and a value. -/
theorem lookupLast?_filterMap {α β : Type} {f : β → Option (String × α)} {key? : β → Option String}
    {value? : β → Option α}
    (hf : ∀ n, f n = (key? n).bind fun k => (value? n).map fun v => (k, v)) (key : String)
    (nodes : List β) :
    lookupLast? key (nodes.filterMap f) =
      (nodes.reverse.find? fun n => key? n = some key ∧ (value? n).isSome).bind value? := by
  -- from the end on, the last node that fits is the first
  rw [lookupLast?, ← List.filterMap_reverse]
  induction nodes.reverse with
  | nil => rfl
  | cons n nodes ih =>
    by_cases hn : key? n = some key ∧ (value? n).isSome
    · obtain ⟨hkey, hvalue⟩ := hn
      obtain ⟨v, hv⟩ := Option.isSome_iff_exists.mp hvalue
      have hpair : f n = some (key, v) := by rw [hf, hkey, hv]; rfl
      rw [List.filterMap_cons_some hpair, List.lookup_cons_self,
        List.find?_cons_of_pos (by simp [hkey, hv]), Option.bind_some, hv]
    · rw [List.find?_cons_of_neg (by simpa using hn), ← ih]
      cases hpair : f n with
      | none => rw [List.filterMap_cons_none hpair]
      | some pair =>
        obtain ⟨k, v⟩ := pair
        rw [hf] at hpair
        obtain ⟨k', hkey, hpair⟩ := Option.bind_eq_some_iff.mp hpair
        obtain ⟨v', hvalue, heq⟩ := Option.map_eq_some_iff.mp hpair
        obtain ⟨rfl, rfl⟩ := Prod.mk.inj heq
        have hne : (key == k') = false :=
          beq_eq_false_iff_ne.mpr fun he => hn ⟨he ▸ hkey, by simp [hvalue]⟩
        rw [List.filterMap_cons_some (by rw [hf, hkey, hvalue]; rfl), List.lookup_cons, hne]

/-! ### Formats -/

/-- The definition that a number takes its levels from: the last one with the id that it names. -/
def definitionNode? (root num : Node) : Option Node :=
  (num.pathValue? ["abstractNumId"]).bind fun id =>
    (root.childrenNamed "abstractNum").reverse.find? fun d => d.attribute? "abstractNumId" = some id

/-- The format of a node of a level; a level without one is bulleted. -/
def formatOf (level : Node) : String :=
  (level.pathValue? ["numFmt"]).getD "bullet"

/-- The format of a level of a number in a numbering part: that of the last level with this index,
in the definition of the last number with this id that has one. -/
def levelFormat? (root : Node) (numId level : String) : Option String := do
  let num ← (root.childrenNamed "num").reverse.find? fun n =>
    n.attribute? "numId" = some numId ∧ (definitionNode? root n).isSome
  let definition ← definitionNode? root num
  let node ← (definition.childrenNamed "lvl").reverse.find? fun n =>
    n.attribute? "ilvl" = some level
  return formatOf node

/-- The levels in the node of a definition. -/
def levelsIn (definition : Node) : List (String × Bool) :=
  (definition.childrenNamed "lvl").filterMap Package.levelOf?

theorem lookupLast?_levelsIn (definition : Node) (level : String) :
    lookupLast? level (levelsIn definition) =
      ((definition.childrenNamed "lvl").reverse.find? fun n =>
        n.attribute? "ilvl" = some level).map fun node =>
          formatOf node != "bullet" && formatOf node != "none" := by
  have hlevel (n : Node) : Package.levelOf? n = (n.attribute? "ilvl").bind fun index =>
      (some (formatOf n != "bullet" && formatOf n != "none")).map fun ordered =>
        (index, ordered) := rfl
  rw [levelsIn, lookupLast?_filterMap hlevel]
  simp only [Option.isSome_some, and_true]
  rw [Option.map_eq_bind]
  rfl

theorem lookupLast?_definitions (root : Node) (id : String) :
    lookupLast? id ((root.childrenNamed "abstractNum").filterMap Package.definitionOf?) =
      ((root.childrenNamed "abstractNum").reverse.find? fun d =>
        d.attribute? "abstractNumId" = some id).map levelsIn := by
  have hdefinition (n : Node) : Package.definitionOf? n =
      (n.attribute? "abstractNumId").bind fun id => (some (levelsIn n)).map fun levels =>
        (id, levels) := rfl
  rw [lookupLast?_filterMap hdefinition]
  simp only [Option.isSome_some, and_true]
  rw [Option.map_eq_bind]
  rfl

theorem lookupLast?_numberingOf (root : Node) (numId : String) :
    lookupLast? numId (Package.numberingOf root) =
      ((root.childrenNamed "num").reverse.find? fun n =>
        n.attribute? "numId" = some numId ∧ (definitionNode? root n).isSome).bind fun num =>
          (definitionNode? root num).map levelsIn := by
  have hlevels (num : Node) : ((num.pathValue? ["abstractNumId"]).bind fun id => lookupLast? id
      ((root.childrenNamed "abstractNum").filterMap Package.definitionOf?)) =
        (definitionNode? root num).map levelsIn := by
    simp only [lookupLast?_definitions, definitionNode?, Option.map_bind]
    rfl
  -- a number stands for the levels of its definition, if there is one
  have hnum (num : Node) : (do
      let id ← num.attribute? "numId"
      let definition ← num.pathValue? ["abstractNumId"]
      return (id, ← lookupLast? definition
        ((root.childrenNamed "abstractNum").filterMap Package.definitionOf?))) =
      (num.attribute? "numId").bind fun id =>
        ((definitionNode? root num).map levelsIn).map fun levels => (id, levels) := by
    rw [← hlevels]
    simp only [Option.map_eq_bind, Option.bind_assoc]
    rfl
  rw [Package.numberingOf, lookupLast?_filterMap hnum]
  simp only [Option.isSome_map]

/-- **A list is numbered exactly if there is a format for its level**, which is not that of bullets
or of no numbers. -/
theorem Package.isOrdered_iff {p : Package} {root : Node} (h : p.numbering = numberingOf root)
    (numId level : String) : p.isOrdered numId level = true ↔ ∃ format,
      levelFormat? root numId level = some format ∧ format ≠ "bullet" ∧ format ≠ "none" := by
  have hlookup : (lookupLast? numId p.numbering).bind (lookupLast? level) =
      (levelFormat? root numId level).map fun format => format != "bullet" && format != "none" := by
    rw [h, lookupLast?_numberingOf, levelFormat?]
    simp only [Option.bind_eq_bind, Option.pure_def, Option.map_eq_bind, Option.bind_assoc,
      Function.comp_def, Option.bind_some, lookupLast?_levelsIn]
  rw [isOrdered, hlookup]
  cases levelFormat? root numId level <;> simp

/-! ### Lists -/

/-- A look-up of the last element with a property that no other element has. -/
theorem find?_reverse_eq_some {α : Type} {P : α → Bool} {l : List α} {x : α} (hmem : x ∈ l)
    (hx : P x = true) (hunique : ∀ y ∈ l, P y = true → y = x) : l.reverse.find? P = some x := by
  cases h : l.reverse.find? P with
  | none => exact absurd hx (List.find?_eq_none.mp h x (List.mem_reverse.mpr hmem))
  | some y =>
    have hy : y ∈ l := List.mem_reverse.mp (List.mem_of_find?_eq_some h)
    rw [hunique y hy (List.find?_some h)]

/-- The format of all levels of a list. -/
def listFormat (ordered : Bool) : String :=
  if ordered then "decimal" else "bullet"

/-- The node of a level, found by its index. -/
theorem exists_levelNode (ordered : Bool) (level : Nat) :
    ∃ n, Means (levelMarkup ordered level) n ∧ n.isNamed "lvl" = true ∧
      n.attribute? "ilvl" = some (toString level) ∧ formatOf n = listFormat ordered := by
  refine ⟨_, means_element (mapM_value?_plain _ (not_mem_toString (by decide) level))
    (.cons (means_leaf _ _) (.cons (means_leaf _ _)
    (.cons (means_leaf _ _) (.cons (means_leaf _ _) (.cons (means_group (.cons (means_group .nil)
      (.cons (means_leaf _ _) .nil))) (.cons (means_group .nil) .nil)))))), rfl, rfl, ?_⟩
  cases ordered <;> rfl

/-- The node of a definition, in which each level is found with its format. -/
theorem exists_definitionNode (number : Nat) (ordered : Bool) :
    ∃ n, Means (definitionMarkup number ordered) n ∧ n.isNamed "abstractNum" = true ∧
      n.isNamed "num" = false ∧ n.attribute? "abstractNumId" = some (toString number) ∧
      ∀ level ≤ deepestLevel, ∃ node,
        (n.childrenNamed "lvl").reverse.find? (fun n => n.attribute? "ilvl" = some (toString level))
          = some node ∧ formatOf node = listFormat ordered := by
  choose node hmeans hname hindex hformat using exists_levelNode ordered
  have hid := mapM_value?_plain "w:abstractNumId" (not_mem_toString (by decide) number)
  have hlevels : List.Forall₂ Means
      ((List.range (deepestLevel + 1)).map (levelMarkup ordered))
      ((List.range (deepestLevel + 1)).map node) :=
    List.forall₂_map_left_iff.mpr (List.forall₂_map_right_iff.mpr
      (List.forall₂_same.mpr fun level _ => hmeans level))
  refine ⟨_, means_element hid hlevels, rfl, rfl, rfl, fun level hlevel => ⟨node level, ?_,
    hformat level⟩⟩
  -- all children are levels, and no two of them have the same number
  have hnamed : ((List.range (deepestLevel + 1)).map node).filter (Node.isNamed "lvl") =
      (List.range (deepestLevel + 1)).map node :=
    List.filter_eq_self.mpr (List.forall_mem_map.mpr fun level _ => hname level)
  rw [Node.childrenNamed, Node.children, hnamed]
  refine find?_reverse_eq_some (List.mem_map.mpr ⟨level, List.mem_range.mpr (by omega), rfl⟩)
    (by simp [hindex]) ?_
  rw [List.forall_mem_map]
  intro other _ hother
  rw [hindex, decide_eq_true_eq, Option.some_inj, toString_inj] at hother
  rw [hother]

/-- The node of a list. -/
def numberNode (number : Nat) : Node :=
  .element "num" [("numId", toString number)]
    [.element "abstractNumId" [("val", toString number)] []]

theorem means_numberNode (number : Nat) : Means (numberMarkup number) (numberNode number) := by
  have h : Means (numberMarkup number) (.element "num" [("numId", toString number)]
      [.element "abstractNumId" [("val", unbroken (toString number))] []]) :=
    means_element (mapM_value?_plain _ (not_mem_toString (by decide) number))
      (.cons (means_leaf _ _) .nil)
  rwa [unbroken_toString] at h

theorem numberNodes_spec (numbers : List Nat) :
    List.Forall₂ Means (numbers.map numberMarkup) (numbers.map numberNode) ∧
      (numbers.map numberNode).filter (Node.isNamed "num") = numbers.map numberNode ∧
      (numbers.map numberNode).filter (Node.isNamed "abstractNum") = [] := by
  induction numbers with
  | nil => exact ⟨.nil, rfl, rfl⟩
  | cons number numbers ih =>
    refine ⟨.cons (means_numberNode number) ih.1, ?_, ih.2.2⟩
    rw [List.map_cons, List.filter_cons_of_pos rfl, ih.2.1]

namespace Layout

/-- The numbers of the lists, each with its kind. -/
def numbered (l : Layout) : List (Nat × Bool) :=
  l.listNumbers.zip l.lists

theorem mem_numbered {l : Layout} {n : Nat} {ordered : Bool} :
    (n, ordered) ∈ l.numbered ↔ ∃ i, n = i + firstList ∧ l.lists[i]? = some ordered := by
  have hnumber (i : Nat) : l.listNumbers[i]? = some n ↔ i < l.lists.length ∧ n = i + firstList := by
    rw [listNumbers, List.getElem?_map, Option.map_eq_some_iff]
    simp only [List.getElem?_eq_some_iff, List.getElem_range, List.length_range]
    constructor
    · rintro ⟨_, ⟨hi, rfl⟩, rfl⟩
      exact ⟨hi, rfl⟩
    · rintro ⟨hi, rfl⟩
      exact ⟨i, ⟨hi, rfl⟩, rfl⟩
  simp only [numbered, List.mem_iff_getElem?, List.getElem?_zip_eq_some, hnumber]
  constructor
  · rintro ⟨i, ⟨-, hn⟩, ho⟩
    exact ⟨i, hn, ho⟩
  · rintro ⟨i, hn, ho⟩
    exact ⟨i, ⟨(List.getElem?_eq_some_iff.mp ho).1, hn⟩, ho⟩

/-- A number belongs to one list. -/
theorem numbered_unique {l : Layout} {n : Nat} {ordered ordered' : Bool}
    (h : (n, ordered) ∈ l.numbered) (h' : (n, ordered') ∈ l.numbered) : ordered = ordered' := by
  obtain ⟨i, rfl, hi⟩ := mem_numbered.mp h
  obtain ⟨j, hij, hj⟩ := mem_numbered.mp h'
  obtain rfl : i = j := by omega
  exact Option.some_inj.mp (hi.symm.trans hj)

/-- The node of the numbering, with a definition and a number for each list. -/
theorem exists_numberingParts (l : Layout) :
    ∃ (root : Node) (node : Nat → Bool → Node), Means l.numberingPartMarkup root ∧
      root.childrenNamed "num" = l.listNumbers.map numberNode ∧
      root.childrenNamed "abstractNum" = l.numbered.map (fun list => node list.1 list.2) ∧
      ∀ number ordered, (node number ordered).attribute? "abstractNumId" = some (toString number) ∧
        ∀ level ≤ deepestLevel, ∃ found,
          ((node number ordered).childrenNamed "lvl").reverse.find?
            (fun n => n.attribute? "ilvl" = some (toString level)) = some found ∧
          formatOf found = listFormat ordered := by
  choose node hmeans hname hother hid hlevels using exists_definitionNode
  obtain ⟨hnumbers, hkept, hdropped⟩ := numberNodes_spec l.listNumbers
  -- the definitions come first, and then the numbers that refer to them
  have hdefinitions : List.Forall₂ Means
      (l.numbered.map fun list => definitionMarkup list.1 list.2)
      (l.numbered.map fun list => node list.1 list.2) :=
    List.forall₂_map_left_iff.mpr (List.forall₂_map_right_iff.mpr
      (List.forall₂_same.mpr fun list _ => hmeans list.1 list.2))
  refine ⟨_, node, means_element (mapM_value?_plain "xmlns:w" (by decide))
    (List.rel_append hdefinitions hnumbers), ?_, ?_, fun number ordered => ⟨hid number ordered,
    hlevels number ordered⟩⟩
  · rw [Node.childrenNamed, Node.children, List.filter_append, hkept,
      List.filter_eq_nil_iff.mpr (List.forall_mem_map.mpr fun list _ => by simp [hother]),
      List.nil_append]
  · rw [Node.childrenNamed, Node.children, List.filter_append, hdropped,
      List.filter_eq_self.mpr (List.forall_mem_map.mpr fun list _ => hname list.1 list.2),
      List.append_nil]

/-- **Each level of each list has the format of the list** in the numbering. -/
theorem exists_numberingNode (l : Layout) :
    ∃ root, Means l.numberingPartMarkup root ∧ ∀ i level ordered, l.lists[i]? = some ordered →
      level ≤ deepestLevel →
        levelFormat? root (toString (i + firstList)) (toString level) =
          some (listFormat ordered) := by
  obtain ⟨root, node, hroot, hnums, hdefinitions, hnode⟩ := l.exists_numberingParts
  refine ⟨root, hroot, fun i level ordered hi hlevel => ?_⟩
  have hlist : (i + firstList, ordered) ∈ l.numbered := mem_numbered.mpr ⟨i, rfl, hi⟩
  -- the number of a list leads to the definition with the same number
  have hdefinition : definitionNode? root (numberNode (i + firstList)) =
      some (node (i + firstList) ordered) := by
    rw [definitionNode?, show (numberNode (i + firstList)).pathValue? ["abstractNumId"] =
      some (toString (i + firstList)) from rfl, Option.bind_some, hdefinitions]
    refine find?_reverse_eq_some (List.mem_map.mpr ⟨_, hlist, rfl⟩) (by simp [hnode]) ?_
    rw [List.forall_mem_map]
    rintro ⟨other, ordered'⟩ hother heq
    rw [(hnode other ordered').1, decide_eq_true_eq, Option.some_inj, toString_inj] at heq
    subst heq
    rw [numbered_unique hother hlist]
  -- no two lists have the same number, so the last with it is the only one
  have hnum : (root.childrenNamed "num").reverse.find? (fun n =>
      n.attribute? "numId" = some (toString (i + firstList)) ∧ (definitionNode? root n).isSome) =
        some (numberNode (i + firstList)) := by
    rw [hnums]
    refine find?_reverse_eq_some (List.mem_map.mpr ⟨_, ?_, rfl⟩) ?_ ?_
    · exact List.mem_map.mpr ⟨i, List.mem_range.mpr (List.getElem?_eq_some_iff.mp hi).1, rfl⟩
    · exact decide_eq_true ⟨rfl, by rw [hdefinition, Option.isSome_some]⟩
    · rw [List.forall_mem_map]
      intro other _ heq
      rw [decide_eq_true_eq] at heq
      have hsame : toString other = toString (i + firstList) := Option.some_inj.mp heq.1
      rw [toString_inj.mp hsame]
  obtain ⟨found, hfound, hformat⟩ := (hnode (i + firstList) ordered).2 level hlevel
  rw [levelFormat?, hnum]
  simp only [Option.bind_eq_bind, Option.bind_some, hdefinition, hfound, hformat, Option.pure_def]

/-! ### Packages -/

theorem exists_relationshipsNode (l : Layout) : ∃ n, Means l.relationshipsMarkup n := by
  obtain ⟨ns, hns⟩ := Xml.Markup.exists_nodes_map
    (fun pair : Nat × String => ⟨_, means_leaf "Relationship" _⟩)
    ((List.range l.targets.length).zip l.targets)
  exact ⟨_, means_element (mapM_value?_plain "xmlns" (by decide)) hns⟩

/-- **A layout without links is found in its package.**  There are its items in the body, and the
levels of all its lists in the numbering. -/
theorem exists_package {l : Layout} (h : ∀ item ∈ l.items, item.IsPlain) :
    ∃ p, l.package? = .ok p ∧ bodyItems p = l.items.map LayoutItem.read ∧
      ∀ i level ordered, l.lists[i]? = some ordered → level ≤ deepestLevel →
        p.isOrdered (toString (i + firstList)) (toString level) = ordered := by
  obtain ⟨ns, hns, hitems⟩ := exists_itemNodes 1 h
  obtain ⟨relationships, hrelationships⟩ := l.exists_relationshipsNode
  obtain ⟨numbering, hnumbering, hlists⟩ := l.exists_numberingNode
  let body : Node := .element "body" [] (ns ++ [.element "sectPr" [] []])
  let document : Node :=
    .element "document" [("w", mainSpace), ("r", relationshipSpace)] [body]
  have hdocument : Means l.documentMarkup document :=
    means_element rfl (.cons (means_group (List.rel_append hns (.cons (means_group .nil) .nil)))
      .nil)
  let p : Package :=
    ⟨document, Package.relationshipsOf relationships, Package.numberingOf numbering⟩
  refine ⟨p, ?_, ?_, fun i level ordered hi hlevel => ?_⟩
  · rw [package?, hdocument.node?, hrelationships.node?, hnumbering.node?]
    rfl
  · rw [show bodyItems p = itemsAmong p (ns ++ [.element "sectPr" [] []]) from rfl,
      itemsAmong_append, hitems]
    exact List.append_nil _
  · have hroot : p.numbering = Package.numberingOf numbering := rfl
    rw [Bool.eq_iff_iff, Package.isOrdered_iff hroot, hlists i level ordered hi hlevel]
    cases ordered <;> simp [listFormat]

end Layout

end Interdoc.Docx

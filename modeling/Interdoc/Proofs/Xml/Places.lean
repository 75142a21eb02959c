import Interdoc.Xml.Tree

/-!
# Places in a tree

A place in a tree is a node with the path that leads to it, the elements around it from the outside
in.  `placesAmong` are all places in nodes, in document order, and `Everywhere` says something of
each of them.  Since a path begins where one starts to look, a fact about a tree becomes a fact
about the children of a node with the node put in front of each path (`everywhere_cons`), which is
how it is handed down in an induction over the tree.

The descendants of a name are the nodes of that name at all places (`descendantsAmong_eq_places`).
-/

namespace Interdoc.Xml.Node

/-! ### Places -/

/-- A node in a tree, and the elements around it, the outermost first. -/
structure Place where
  path : List Node
  node : Node

/-- A place in the children of an element, as a place in the element. -/
def Place.within (outer : Node) (place : Place) : Place :=
  { place with path := outer :: place.path }

mutual

/-- The places in a node, first that of the node itself. -/
def places : Node → List Place
  | .text s => [⟨[], .text s⟩]
  | .element name attributes children =>
    ⟨[], .element name attributes children⟩ ::
      (placesAmong children).map (Place.within (.element name attributes children))

/-- The places in nodes, in document order. -/
def placesAmong : List Node → List Place
  | [] => []
  | node :: rest => node.places ++ placesAmong rest

end

theorem places_eq (node : Node) :
    node.places = ⟨[], node⟩ :: (placesAmong node.children).map (Place.within node) := by
  cases node with
  | text s => rw [places, children, placesAmong, List.map_nil]
  | element name attributes children => rw [places, Node.children]

mutual

theorem forest_of_children {P : List Node → Prop} (nil : P [])
    (cons : ∀ node rest, P node.children → P rest → P (node :: rest)) : ∀ node : Node,
    P node.children
  | .text _ => nil
  | .element _ _ children => forest_induction nil cons children

/-- **Induction over nodes** and all that is in them: what holds of the children of the first node
and of the rest holds of the whole. -/
theorem forest_induction {P : List Node → Prop} (nil : P [])
    (cons : ∀ node rest, P node.children → P rest → P (node :: rest)) : ∀ nodes : List Node,
    P nodes
  | [] => nil
  | node :: rest =>
    cons node rest (forest_of_children nil cons node) (forest_induction nil cons rest)

end

/-- An element has one name. -/
theorem isNamed_of_ne {node : Node} {name other : String} (h : node.isNamed name = true)
    (hne : name ≠ other) : node.isNamed other = false := by
  cases node with
  | text s => rfl
  | element n attributes children =>
    obtain rfl : n = name := by simpa [isNamed] using h
    simpa [isNamed] using hne

/-! ### Everywhere -/

/-- Something holds of each node in nodes and the path to it. -/
def Everywhere (P : List Node → Node → Prop) (nodes : List Node) : Prop :=
  ∀ place ∈ placesAmong nodes, P place.path place.node

instance (P : List Node → Node → Prop) [∀ path node, Decidable (P path node)] (nodes : List Node) :
    Decidable (Everywhere P nodes) :=
  inferInstanceAs (Decidable (∀ place ∈ placesAmong nodes, P place.path place.node))

variable {P Q : List Node → Node → Prop} {node : Node} {nodes rest : List Node} {name : String}

theorem everywhere_nil : Everywhere P [] := List.forall_mem_nil _

/-- **What holds everywhere** holds of the first node, everywhere in it, and everywhere in the
rest. -/
theorem everywhere_cons :
    Everywhere P (node :: rest) ↔
      P [] node ∧ Everywhere (fun path => P (node :: path)) node.children ∧
        Everywhere P rest := by
  simp only [Everywhere, placesAmong, places_eq, List.forall_mem_append, List.forall_mem_cons,
    List.forall_mem_map, Place.within, and_assoc]

theorem Everywhere.head (h : Everywhere P (node :: rest)) : Everywhere P [node] :=
  everywhere_cons.mpr ⟨(everywhere_cons.mp h).1, (everywhere_cons.mp h).2.1, everywhere_nil⟩

theorem Everywhere.tail (h : Everywhere P (node :: rest)) : Everywhere P rest :=
  (everywhere_cons.mp h).2.2

theorem Everywhere.imp (h : Everywhere P nodes) (hPQ : ∀ path node, P path node → Q path node) :
    Everywhere Q nodes :=
  fun place hplace => hPQ _ _ (h place hplace)

theorem Everywhere.and (hP : Everywhere P nodes) (hQ : Everywhere Q nodes) :
    Everywhere (fun path node => P path node ∧ Q path node) nodes :=
  fun place hplace => ⟨hP place hplace, hQ place hplace⟩

/-- It holds of each of the nodes and everywhere in it. -/
theorem Everywhere.of_mem (h : Everywhere P nodes) (hmem : node ∈ nodes) :
    P [] node ∧ Everywhere (fun path => P (node :: path)) node.children := by
  induction nodes with
  | nil => cases hmem
  | cons other rest ih =>
    rw [everywhere_cons] at h
    rcases List.mem_cons.mp hmem with rfl | hmem
    · exact ⟨h.1, h.2.1⟩
    · exact ih h.2.2 hmem

/-- A path is empty or begins with one of the nodes. -/
theorem everywhere_mem_of_path (nodes : List Node) :
    Everywhere (fun path _ => ∀ outer ∈ path.head?, outer ∈ nodes) nodes := by
  induction nodes with
  | nil => exact everywhere_nil
  | cons node rest ih =>
    rw [everywhere_cons]
    refine ⟨by simp, fun _ _ => by simp, ih.imp fun path _ h outer houter => ?_⟩
    exact List.mem_cons_of_mem _ (h outer houter)

/-! ### Descendants -/

theorem descendants_eq (name : String) (node : Node) :
    node.descendants name = descendantsAmong name node.children := by
  cases node with
  | text s => rw [descendants, children, descendantsAmong]
  | element n attributes children => rw [descendants, Node.children]

mutual

theorem descendants_eq_places (name : String) : ∀ node : Node,
    node.descendants name =
      ((placesAmong node.children).map Place.node).filter (isNamed name)
  | .text s => by rw [descendants, children, placesAmong]; rfl
  | .element _ _ children => descendantsAmong_eq_places name children

/-- **The descendants of a name** are the nodes of that name at all places. -/
theorem descendantsAmong_eq_places (name : String) : ∀ nodes : List Node,
    descendantsAmong name nodes = ((placesAmong nodes).map Place.node).filter (isNamed name)
  | [] => by rw [descendantsAmong, placesAmong]; rfl
  | node :: rest => by
    rw [descendantsAmong, placesAmong, places_eq, descendants_eq_places name node,
      descendantsAmong_eq_places name rest]
    simp only [List.map_append, List.filter_append, List.map_cons, List.filter_cons, List.map_map]
    split <;> rfl

end

theorem descendantsAmong_eq_nil_iff :
    descendantsAmong name nodes = [] ↔
      Everywhere (fun _ node => node.isNamed name = false) nodes := by
  rw [descendantsAmong_eq_places, List.filter_eq_nil_iff]
  simp only [List.forall_mem_map, Bool.not_eq_true, Everywhere]

theorem descendantsAmong_cons (name : String) (node : Node) (rest : List Node) :
    descendantsAmong name (node :: rest) =
      descendantsAmong name [node] ++ descendantsAmong name rest := by
  simp [descendantsAmong]

theorem descendantsAmong_cons_of_not (h : node.isNamed name = false) (rest : List Node) :
    descendantsAmong name (node :: rest) = node.descendants name ++ descendantsAmong name rest := by
  rw [descendantsAmong, h, if_neg Bool.false_ne_true, List.nil_append]

theorem descendantsAmong_singleton_of_not (h : node.isNamed name = false) :
    descendantsAmong name [node] = node.descendants name := by
  rw [descendantsAmong_cons_of_not h, descendantsAmong, List.append_nil]

/-- The descendants that stand in elements of another name. -/
theorem descendantsAmong_of_head {outer : String}
    (h : Everywhere (fun path node => node.isNamed name = true →
      ∃ first ∈ path.head?, first.isNamed outer = true) nodes) :
    descendantsAmong name nodes = (nodes.filter (isNamed outer)).flatMap (descendants name) := by
  induction nodes with
  | nil => rw [descendantsAmong]; rfl
  | cons node rest ih =>
    rw [everywhere_cons] at h
    have hself : node.isNamed name = false := by
      rw [← Bool.not_eq_true]
      exact fun hname => by simpa using h.1 hname
    rw [descendantsAmong_cons_of_not hself, ih h.2.2, List.filter_cons]
    split
    · rw [List.flatMap_cons]
    · next houter =>
      -- there is nothing of the name in an element that has another one
      have hnone : node.descendants name = [] := by
        rw [descendants_eq, descendantsAmong_eq_nil_iff]
        refine h.2.1.imp fun path other hpath => ?_
        rw [← Bool.not_eq_true]
        exact fun hname => houter (by simpa using hpath hname)
      rw [hnone, List.nil_append]

/-- The descendants that stand among the nodes themselves. -/
theorem descendantsAmong_of_path_eq_nil
    (h : Everywhere (fun path node => node.isNamed name = true → path = []) nodes) :
    descendantsAmong name nodes = nodes.filter (isNamed name) := by
  induction nodes with
  | nil => rw [descendantsAmong]; rfl
  | cons node rest ih =>
    rw [everywhere_cons] at h
    have hnone : node.descendants name = [] := by
      rw [descendants_eq, descendantsAmong_eq_nil_iff]
      refine h.2.1.imp fun path other hpath => ?_
      rw [← Bool.not_eq_true]
      exact fun hname => List.cons_ne_nil _ _ (hpath hname)
    rw [descendantsAmong, hnone, List.append_nil, ih h.2.2, List.filter_cons]
    split <;> rfl

end Interdoc.Xml.Node

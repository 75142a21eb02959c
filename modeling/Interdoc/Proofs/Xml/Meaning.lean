import Interdoc.Xml.Markup
import Mathlib.Data.List.Forall2

/-!
# The meaning of written XML

What is written means something if all its references can be resolved.  That is so for everything
that is made by escaping texts (`unescape?_escape`), so elements made of such parts have a tree, and
`Markup.Means` relates them to it.  The relation is only about elements: a sequence of elements
means a sequence of nodes of the same length, whereas a text may be none.

Escaping leaves out the ends of lines, so that a text is read as `unbroken` of it.
-/

namespace Interdoc.Xml

/-! ### Texts -/

/-- Whether a character ends no line. -/
def isInLine (c : Char) : Bool := c != '\n' && c != '\r'

/-- A text as it is read when it has been escaped: without ends of lines. -/
def unbroken (s : String) : String :=
  String.ofList (s.toList.filter isInLine)

theorem unbroken_eq_self {s : String} (h : ∀ c ∈ s.toList, isInLine c) : unbroken s = s := by
  rw [unbroken, List.filter_eq_self.mpr h, String.ofList_toList]

theorem escape_cons (c : Char) (s : List Char) : escape (c :: s) = escapeChar c ++ escape s :=
  List.flatMap_cons

theorem unescapeFrom_escape (position : Nat) (s : List Char) :
    unescapeFrom position 0 (escape s) = .ok (s.filter isInLine) := by
  induction s generalizing position with
  | nil => rfl
  | cons c s ih =>
    rw [escape_cons]
    unfold escapeChar
    split
    -- a character that is not escaped
    case h_8 hamp _ _ _ _ hlf hcr =>
      have hc : isInLine c = true := by simp_all [isInLine]
      rw [List.singleton_append, unescapeFrom, if_neg hamp, ih, List.filter_cons_of_pos hc]
      rfl
    all_goals
      simp [unescapeFrom, reference, entity?, isInLine, Except.map, ih]

/-- **An escaped text is read back**, up to the ends of lines, which are left out. -/
theorem unescape?_escape (s : List Char) : unescape? (escape s) = .ok (s.filter isInLine) :=
  unescapeFrom_escape 0 s

theorem unescape?_eq_self {s : List Char} (h : '&' ∉ s) : unescape? s = .ok s := by
  suffices ∀ position, unescapeFrom position 0 s = .ok s from this 0
  induction s with
  | nil => exact fun _ => rfl
  | cons c s ih =>
    intro position
    rw [List.mem_cons, not_or] at h
    rw [unescapeFrom, if_neg (Ne.symm h.1), ih h.2]
    rfl

namespace Node

/-- The nodes of a text: one, unless the text is empty. -/
def ofText (s : String) : List Node :=
  if s = "" then [] else [.text s]

/-- Whether a node is an element. -/
def IsElement : Node → Prop
  | .text _ => False
  | .element _ _ _ => True

theorem ownText_ofText (name : String) (attributes : List (String × String)) (s : String) :
    (element name attributes (ofText s)).ownText = s := by
  rw [ofText]
  split
  · next h => rw [h]; rfl
  · simp [ownText, children, String.join]

theorem path?_singleton (node : Node) (name : String) : node.path? [name] = node.child? name := by
  rw [path?]
  cases node.child? name <;> rfl

theorem path?_pair (node : Node) (outer inner : String) :
    node.path? [outer, inner] = (node.child? outer).bind (·.child? inner) := by
  rw [path?]
  cases node.child? outer with
  | none => rfl
  | some n => exact path?_singleton n inner

theorem cons_of_isElement {n : Node} (h : n.IsElement) (ns : List Node) : n.cons ns = n :: ns := by
  cases n with
  | text s => exact h.elim
  | element name attributes children => rfl

end Node

/-! ### Elements -/

namespace Markup

/-- A name without its prefix. -/
def localOf (name : String) : String :=
  String.ofList (localName name.toList)

/-- A piece of markup is an element and means the node. -/
structure Means (m : Markup) (n : Node) : Prop where
  node? : m.node? = .ok n
  isElement : n.IsElement

variable {name : String} {ms : List Markup} {ns : List Node}

theorem exists_nodes_map {ι : Type} {f : ι → Markup} (h : ∀ i, ∃ n, Means (f i) n) (is : List ι) :
    ∃ ns, List.Forall₂ Means (is.map f) ns := by
  induction is with
  | nil => exact ⟨[], .nil⟩
  | cons i is ih =>
    obtain ⟨n, hn⟩ := h i
    obtain ⟨ns, hns⟩ := ih
    exact ⟨n :: ns, .cons hn hns⟩

theorem nodes?_eq (h : List.Forall₂ Means ms ns) : nodes? ms = .ok ns := by
  induction h with
  | nil => rfl
  | cons hm _ ih => rw [nodes?, hm.node?, ih]; simp only [Node.cons_of_isElement hm.isElement]

theorem means_element {attributes : List (String × List Char)} {values : List (String × String)}
    (ha : attributes.mapM value? = .ok values) (h : List.Forall₂ Means ms ns) :
    Means (.element name attributes ms) (.element (localOf name) values ns) :=
  ⟨by rw [Markup.node?, ha, nodes?_eq h]; rfl, trivial⟩

theorem means_group (h : List.Forall₂ Means ms ns) :
    Means (.group name ms) (.element (localOf name) [] ns) :=
  means_element rfl h

/-- An attribute that is written as it stands. -/
theorem mapM_value?_plain (name : String) {v : String} (h : '&' ∉ v.toList) :
    [(name, v.toList)].mapM value? = .ok [(localOf name, v)] := by
  rw [List.mapM_cons, value?, unescape?_eq_self h]
  simp only [String.ofList_toList]
  rfl

theorem mapM_value?_escape (attributes : List (String × String)) :
    (attributes.map fun (n, v) => (n, escape v.toList)).mapM value? =
      .ok (attributes.map fun (n, v) => (localOf n, unbroken v)) := by
  induction attributes with
  | nil => rfl
  | cons a attributes ih =>
    rw [List.map_cons, List.mapM_cons, ih, value?, unescape?_escape]
    rfl

theorem means_leaf (name : String) (attributes : List (String × String)) :
    Means (.leaf name attributes)
      (.element (localOf name) (attributes.map fun (n, v) => (localOf n, unbroken v)) []) :=
  means_element (mapM_value?_escape attributes) .nil

theorem means_textElement {attributes : List (String × List Char)}
    {values : List (String × String)} (ha : attributes.mapM value? = .ok values) (s : String) :
    Means (.element name attributes [.text (escape s.toList)])
      (.element (localOf name) values (Node.ofText (unbroken s))) := by
  refine ⟨?_, trivial⟩
  rw [Markup.node?, ha, nodes?, Markup.node?, unescape?_escape]
  rfl

end Markup

end Interdoc.Xml

import Interdoc.Html.Blocks
import Interdoc.Html.Piece
import Mathlib.Data.List.Forall2

/-!
# Nested pieces

Pieces whose tags are well nested denote a sequence of nodes (`nodesOf`): each element holds what is
between its tags.  Two things are as in every HTML tree: an empty text is no node and two texts in a
row are one, and the rows of a table stand in a row group, also where no tag says so.

`Nesting` is the state of reading the pieces one by one.  A sequence of pieces that opens and closes
the same elements adds its nodes to every state (`Denotes`), whereas a text may join a text before
it; it fills an element that has just been opened (`Fills`).

A text may be written in one piece or in several, and an empty piece says nothing.  Two sequences of
pieces are `Alike` if they lead from every state of reading to the same state.  Then the one may
stand for the other, whatever is around them, and both denote the same nodes.
-/

namespace Interdoc.Html

/-! ### Meaning -/

/-- A text behind nodes, the last of which comes first. -/
def pushText (s : String) (reversed : List Node) : List Node :=
  if s = "" then reversed
  else match reversed with
    | .text t :: rest => .text (t ++ s) :: rest
    | _ => .text s :: reversed

/-- The children of an element with the given content: rows that stand directly in a table are put
into a row group. -/
def childrenOf (tag : String) (content : List Node) : List Node :=
  if tag = "table" && !content.isEmpty then [.element "tbody" [] content] else content

/-- An element whose end tag is to come, with the nodes before it among its siblings in reverse. -/
structure OpenElement where
  tag : String
  attributes : List (String × String)
  before : List Node

/-- What has been read of pieces: the open elements, the innermost first, and the nodes so far in
the innermost, in reverse. -/
structure Nesting where
  opened : List OpenElement
  reversed : List Node

/-- One more piece; an end tag closes the innermost element. -/
def Nesting.step (n : Nesting) : Piece → Nesting
  | .start tag attributes => ⟨⟨tag, attributes, n.reversed⟩ :: n.opened, []⟩
  | .finish _ =>
    match n.opened with
    | [] => n
    | e :: outer =>
      ⟨outer, .element e.tag e.attributes (childrenOf e.tag n.reversed.reverse) :: e.before⟩
  | .void tag attributes => { n with reversed := .element tag attributes [] :: n.reversed }
  | .text s => { n with reversed := pushText s n.reversed }

/-- Several more pieces. -/
def Nesting.run (n : Nesting) (pieces : List Piece) : Nesting :=
  pieces.foldl Nesting.step n

/-- The nodes that well nested pieces denote. -/
def nodesOf (pieces : List Piece) : List Node :=
  (Nesting.run ⟨[], []⟩ pieces).reversed.reverse

theorem Nesting.run_cons (n : Nesting) (piece : Piece) (pieces : List Piece) :
    n.run (piece :: pieces) = (n.step piece).run pieces := rfl

theorem Nesting.run_append (n : Nesting) (ps qs : List Piece) :
    n.run (ps ++ qs) = (n.run ps).run qs :=
  List.foldl_append

/-! ### Composition -/

/-- Pieces denote nodes, whatever is before them. -/
def Denotes (pieces : List Piece) (nodes : List Node) : Prop :=
  ∀ n : Nesting, n.run pieces = { n with reversed := nodes.reverse ++ n.reversed }

/-- Pieces denote nodes, at the start of an element. -/
def Fills (pieces : List Piece) (nodes : List Node) : Prop :=
  ∀ opened, Nesting.run ⟨opened, []⟩ pieces = ⟨opened, nodes.reverse⟩

variable {pieces ps qs content : List Piece} {nodes ms ns children : List Node} {tag : String}
  {attributes : List (String × String)}

theorem Denotes.fills (h : Denotes pieces nodes) : Fills pieces nodes := fun opened => by
  rw [h ⟨opened, []⟩, List.append_nil]

theorem Fills.nodesOf_eq (h : Fills pieces nodes) : nodesOf pieces = nodes := by
  rw [nodesOf, h, List.reverse_reverse]

theorem denotes_nil : Denotes [] [] := fun _ => rfl

theorem denotes_append (hp : Denotes ps ms) (hq : Denotes qs ns) :
    Denotes (ps ++ qs) (ms ++ ns) := fun n => by
  rw [Nesting.run_append, hp, hq, List.reverse_append, List.append_assoc]

theorem denotes_element (h : Fills content children) :
    Denotes (.start tag attributes :: content ++ [.finish tag])
      [.element tag attributes (childrenOf tag children)] := fun n => by
  rw [List.cons_append, Nesting.run_cons, Nesting.step, Nesting.run_append, h, Nesting.run_cons,
    Nesting.step, List.reverse_reverse]
  rfl

theorem denotes_void : Denotes [.void tag attributes] [.element tag attributes []] :=
  fun _ => rfl

theorem fills_text (s : String) : Fills [.text s] (if s = "" then [] else [.text s]) :=
  fun opened => by
    rw [Nesting.run_cons, Nesting.step]
    simp only [pushText]
    split <;> rfl

/-! ### Pieces that mean the same -/

/-- Pieces that make the same of every state of reading. -/
def Alike (ps qs : List Piece) : Prop :=
  ∀ n : Nesting, n.run ps = n.run qs

namespace Alike

variable {rs ps' qs' : List Piece}

theorem refl (ps : List Piece) : Alike ps ps := fun _ => rfl

theorem trans (h : Alike ps qs) (h' : Alike qs rs) : Alike ps rs := fun n => (h n).trans (h' n)

theorem append (h : Alike ps qs) (h' : Alike ps' qs') : Alike (ps ++ ps') (qs ++ qs') := by
  intro n
  rw [Nesting.run_append, Nesting.run_append, h n, h' (n.run qs)]

theorem cons (piece : Piece) (h : Alike ps qs) : Alike (piece :: ps) (piece :: qs) :=
  (refl [piece]).append h

/-- An element with content that is alike. -/
theorem element (tag : String) (attributes : List (String × String)) (h : Alike ps qs) :
    Alike (.start tag attributes :: ps ++ [.finish tag])
      (.start tag attributes :: qs ++ [.finish tag]) :=
  (h.cons _).append (refl _)

theorem flatMap {ι κ : Type} {R : ι → κ → Prop} {f : ι → List Piece} {g : κ → List Piece}
    (h : ∀ i k, R i k → Alike (f i) (g k)) {is : List ι} {ks : List κ} (hR : List.Forall₂ R is ks) :
    Alike (is.flatMap f) (ks.flatMap g) := by
  induction hR with
  | nil => exact refl []
  | cons hik _ ih =>
    rw [List.flatMap_cons, List.flatMap_cons]
    exact (h _ _ hik).append ih

/-- **Pieces that are alike denote the same nodes.** -/
theorem nodesOf_eq (h : Alike ps qs) : nodesOf ps = nodesOf qs := by
  rw [nodesOf, nodesOf, h]

end Alike

/-! ### Texts -/

theorem pushText_empty (reversed : List Node) : pushText "" reversed = reversed := by
  unfold pushText
  exact if_pos rfl

/-- Two texts behind nodes are one. -/
theorem pushText_pushText (s t : String) (reversed : List Node) :
    pushText t (pushText s reversed) = pushText (s ++ t) reversed := by
  by_cases hs : s = ""
  · rw [hs, pushText_empty, String.empty_append]
  by_cases ht : t = ""
  · rw [ht, pushText_empty, String.append_empty]
  have hst : s ++ t ≠ "" := fun h => hs (String.append_eq_empty_iff.mp h).1
  -- what matters of the nodes is whether a text stands last
  cases reversed with
  | nil => simp only [pushText, if_neg hs, if_neg ht, if_neg hst]
  | cons node rest =>
    cases node with
    | text u => simp only [pushText, if_neg hs, if_neg ht, if_neg hst, String.append_assoc]
    | element _ _ _ | other _ => simp only [pushText, if_neg hs, if_neg ht, if_neg hst]

theorem alike_empty : Alike [.text ""] [] := by
  intro n
  rw [Nesting.run_cons, Nesting.step, pushText_empty]

theorem alike_texts (s t : String) : Alike [.text s, .text t] [.text (s ++ t)] := by
  intro n
  rw [Nesting.run_cons, Nesting.run_cons, Nesting.run_cons, Nesting.step, Nesting.step,
    Nesting.step, pushText_pushText]

end Interdoc.Html

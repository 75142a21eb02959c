import Interdoc.Proofs.Docx.PlainText
import Interdoc.Proofs.Document.VisibleText
import Mathlib.Data.List.Perm.Basic

/-!
# Texts in raw text

Raw text has a line for each paragraph, with all texts below it.  A paragraph that stands in another
one, as in a text box, has a line of its own, but its texts are in the line of the outer one too: a
text comes as often as there are paragraphs around it (`perm_copies`).

So the lines hold the texts of the document once each, and in the order of the document, if and only
if no text that is not empty stands in more than one paragraph (`rawText_holds_texts_once_iff`).
The root of the document is no paragraph, whatever its name.
-/

namespace Interdoc.Docx

open Xml (Node)
open Xml.Node (Place placesAmong descendantsAmong forest_induction)

/-! ### Texts and the paragraphs around them -/

/-- The text directly in the element at a place. -/
def placeText (t : Place) : List Char :=
  t.node.ownText.toList

/-- The number of paragraphs around a place. -/
def paragraphsAround (t : Place) : Nat :=
  t.path.countP (Node.isNamed "p")

/-- The text at a place, once for each paragraph around it. -/
def copies (t : Place) : List Char :=
  (List.replicate (paragraphsAround t) (placeText t)).flatten

/-- The places of texts among nodes, in document order. -/
def textsAmong (nodes : List Node) : List Place :=
  (placesAmong nodes).filter fun t => t.node.isNamed "t"

/-- The texts of a document that stand in a paragraph, in document order. -/
def Package.texts (p : Package) : List Place :=
  (textsAmong p.document.children).filter fun t => 0 < paragraphsAround t

/-- The text of each paragraph of a document, in document order. -/
def Package.paragraphTexts (p : Package) : List (List Char) :=
  (p.document.descendants "p").map paragraphText

variable {node : Node} {nodes rest : List Node}

theorem copies_of_eq_zero {t : Place} (h : paragraphsAround t = 0) : copies t = [] := by
  simp [copies, h]

theorem copies_of_eq_one {t : Place} (h : paragraphsAround t = 1) : copies t = placeText t := by
  simp [copies, h]

theorem copies_of_placeText_eq_nil {t : Place} (h : placeText t = []) : copies t = [] := by
  simp [copies, h]

theorem paragraphsAround_within (t : Place) :
    paragraphsAround (t.within node) =
      paragraphsAround t + if node.isNamed "p" then 1 else 0 := by
  unfold paragraphsAround Place.within
  rw [List.countP_cons]

theorem copies_within (hp : node.isNamed "p" = true) (t : Place) :
    copies (t.within node) = placeText t ++ copies t := by
  unfold copies
  rw [paragraphsAround_within, if_pos hp, List.replicate_succ, List.flatten_cons]
  rfl

theorem copies_within_of_not (hp : node.isNamed "p" = false) (t : Place) :
    copies (t.within node) = copies t := by
  unfold copies
  rw [paragraphsAround_within, hp, if_neg Bool.false_ne_true, Nat.add_zero]
  rfl

theorem textsAmong_cons :
    textsAmong (node :: rest) = (if node.isNamed "t" then [⟨[], node⟩] else []) ++
      (textsAmong node.children).map (Place.within node) ++ textsAmong rest := by
  have hwithin : (fun t : Place => t.node.isNamed "t") ∘ Place.within node =
      fun t => t.node.isNamed "t" := rfl
  unfold textsAmong
  rw [placesAmong, Node.places_eq, List.filter_append, List.filter_cons, List.filter_map, hwithin]
  split <;> rfl

/-- The text of a paragraph is that of the texts in it. -/
theorem paragraphText_eq (paragraph : Node) :
    paragraphText paragraph = (textsAmong paragraph.children).flatMap placeText := by
  unfold paragraphText textsAmong
  rw [Node.descendants_eq_places, List.filter_map, List.flatMap_map]
  rfl

/-! ### The lines of raw text -/

/-- What the paragraphs among nodes and in them have as their texts, one after the other. -/
def linesAmong (nodes : List Node) : List Char :=
  (descendantsAmong "p" nodes).flatMap paragraphText

theorem linesAmong_cons (hp : node.isNamed "p" = true) :
    linesAmong (node :: rest) =
      (textsAmong node.children).flatMap placeText ++ linesAmong node.children ++
        linesAmong rest := by
  unfold linesAmong
  rw [descendantsAmong, if_pos hp, List.flatMap_append, List.flatMap_append,
    List.flatMap_singleton, paragraphText_eq, Node.descendants_eq]

theorem linesAmong_cons_of_not (hp : node.isNamed "p" = false) :
    linesAmong (node :: rest) = linesAmong node.children ++ linesAmong rest := by
  unfold linesAmong
  rw [Node.descendantsAmong_cons_of_not hp, List.flatMap_append, Node.descendants_eq]

/-- Around a node itself there is no paragraph, so only what is in it has copies. -/
theorem flatMap_copies_cons :
    (textsAmong (node :: rest)).flatMap copies =
      (textsAmong node.children).flatMap (fun t => copies (t.within node)) ++
        (textsAmong rest).flatMap copies := by
  have hself : (if node.isNamed "t" then [(⟨[], node⟩ : Place)] else []).flatMap copies = [] := by
    split <;> rfl
  rw [textsAmong_cons, List.flatMap_append, List.flatMap_append, hself, List.nil_append,
    List.flatMap_map]

/-- **Each text comes as often as there are paragraphs around it.** -/
theorem perm_copies (nodes : List Node) :
    (linesAmong nodes).Perm ((textsAmong nodes).flatMap copies) := by
  induction nodes using forest_induction with
  | nil => exact .refl []
  | cons node rest ihChildren ihRest =>
    rw [flatMap_copies_cons]
    cases hp : node.isNamed "p" with
    | true =>
      -- one more paragraph around each text in the node, and one more line with all of them
      simp only [copies_within hp]
      rw [linesAmong_cons hp]
      have hcopies := List.flatMap_append_perm (textsAmong node.children) placeText copies
      exact ((ihChildren.append_left _).trans hcopies).append ihRest
    | false =>
      simp only [copies_within_of_not hp]
      rw [linesAmong_cons_of_not hp]
      exact ihChildren.append ihRest

/-- **Texts in at most one paragraph** come in document order. -/
theorem linesAmong_eq_flatMap_copies {nodes : List Node}
    (h : ∀ t ∈ textsAmong nodes, placeText t ≠ [] → paragraphsAround t ≤ 1) :
    linesAmong nodes = (textsAmong nodes).flatMap copies := by
  induction nodes using forest_induction with
  | nil => rfl
  | cons node rest ihChildren ihRest =>
    have hrest : ∀ t ∈ textsAmong rest, placeText t ≠ [] → paragraphsAround t ≤ 1 := by
      intro t ht
      apply h
      rw [textsAmong_cons]
      exact List.mem_append_right _ ht
    have hchildren : ∀ t ∈ textsAmong node.children, placeText t ≠ [] →
        paragraphsAround t + (if node.isNamed "p" then 1 else 0) ≤ 1 := by
      intro t ht htext
      have hmem : t.within node ∈ textsAmong (node :: rest) := by
        rw [textsAmong_cons]
        exact List.mem_append_left _ (List.mem_append_right _ (List.mem_map_of_mem ht))
      rw [← paragraphsAround_within]
      exact h _ hmem htext
    have hlines : linesAmong node.children = (textsAmong node.children).flatMap copies := by
      apply ihChildren
      intro t ht htext
      have hcount := hchildren t ht htext
      omega
    rw [flatMap_copies_cons]
    cases hp : node.isNamed "p" with
    | true =>
      -- below this paragraph there is no text in another one
      have hnone : ∀ t ∈ textsAmong node.children, copies t = [] := by
        intro t ht
        by_cases htext : placeText t = []
        · exact copies_of_placeText_eq_nil htext
        · have hcount := hchildren t ht htext
          rw [if_pos hp] at hcount
          exact copies_of_eq_zero (by omega)
      have hone : ∀ t ∈ textsAmong node.children, copies (t.within node) = placeText t := by
        intro t ht
        rw [copies_within hp, hnone t ht, List.append_nil]
      rw [linesAmong_cons hp, hlines, List.flatMap_eq_nil_iff.mpr hnone, List.append_nil,
        List.flatMap_congr hone, ihRest hrest]
    | false =>
      simp only [copies_within_of_not hp]
      rw [linesAmong_cons_of_not hp, hlines, ihRest hrest]

/-! ### Raw text -/

variable {p : Package}

theorem flatten_paragraphTexts (p : Package) :
    p.paragraphTexts.flatten = linesAmong p.document.children := by
  unfold Package.paragraphTexts linesAmong
  rw [Node.descendants_eq, List.flatMap]

/-- Texts outside of all paragraphs have no copies. -/
theorem flatMap_copies_texts (p : Package) :
    p.texts.flatMap copies = (textsAmong p.document.children).flatMap copies := by
  unfold Package.texts
  induction textsAmong p.document.children with
  | nil => rfl
  | cons t texts ih =>
    rw [List.filter_cons, List.flatMap_cons, ← ih]
    split
    · rw [List.flatMap_cons]
    · next hnone =>
      rw [copies_of_eq_zero (by simpa using hnone), List.nil_append]

theorem one_le_of_mem_texts {t : Place} (h : t ∈ p.texts) : 1 ≤ paragraphsAround t := by
  have hpos := (List.mem_filter.mp h).2
  exact of_decide_eq_true hpos

theorem placeText_sublist_copies {t : Place} (h : t ∈ p.texts) :
    (placeText t).Sublist (copies t) := by
  obtain ⟨n, hn⟩ := Nat.exists_eq_add_of_le' (one_le_of_mem_texts h)
  unfold copies
  rw [hn, List.replicate_succ, List.flatten_cons]
  exact List.sublist_append_left _ _

/-- A text and its copies are the same if it is empty or has one paragraph around it. -/
theorem placeText_eq_copies_iff {t : Place} :
    placeText t = copies t ↔ (placeText t ≠ [] → paragraphsAround t = 1) := by
  constructor
  · intro heq htext
    have hlength : (placeText t).length = paragraphsAround t * (placeText t).length := by
      conv_lhs => rw [heq]
      simp [copies]
    have hpos : 0 < (placeText t).length := List.length_pos_iff.mpr htext
    exact Nat.eq_of_mul_eq_mul_right hpos (by omega)
  · intro hone
    by_cases htext : placeText t = []
    · rw [copies_of_placeText_eq_nil htext, htext]
    · exact (copies_of_eq_one (hone htext)).symm

/-- **Raw text** is the lines of the paragraphs.  Without the line feeds between them, each text
that stands in a paragraph comes as often as there are paragraphs around it.  The texts come once
each and in document order if and only if none of them that is not empty stands in two paragraphs.
-/
theorem rawText_holds_texts_once_iff (p : Package) :
    p.rawText = Text.unlines p.paragraphTexts ∧
      p.paragraphTexts.flatten.Perm (p.texts.flatMap copies) ∧
      (p.paragraphTexts.flatten = p.texts.flatMap placeText ↔
        ∀ t ∈ p.texts, placeText t ≠ [] → paragraphsAround t = 1) := by
  have hperm : p.paragraphTexts.flatten.Perm (p.texts.flatMap copies) := by
    rw [flatten_paragraphTexts, flatMap_copies_texts]
    exact perm_copies _
  refine ⟨rfl, hperm, ?_⟩
  -- copies are only added, so the lists are equal if and only if each text has as many as before
  have hparts := Text.flatMap_eq_flatMap_iff_of_sublist
    fun t (ht : t ∈ p.texts) => placeText_sublist_copies ht
  constructor
  · intro heq t ht
    have hcopies : p.texts.flatMap placeText = p.texts.flatMap copies := by
      have hlength := hperm.length_eq
      rw [heq] at hlength
      have hsublist := List.Sublist.flatMap_right _
        fun t (ht : t ∈ p.texts) => placeText_sublist_copies ht
      exact hsublist.eq_of_length hlength
    exact placeText_eq_copies_iff.mp (hparts.mp hcopies t ht)
  · intro hone
    have htexts : p.texts.flatMap placeText = p.texts.flatMap copies :=
      hparts.mpr fun t ht => placeText_eq_copies_iff.mpr (hone t ht)
    rw [htexts, flatten_paragraphTexts, flatMap_copies_texts]
    apply linesAmong_eq_flatMap_copies
    intro t ht htext
    by_cases hpos : 0 < paragraphsAround t
    · exact (hone t (List.mem_filter.mpr ⟨ht, by simpa using hpos⟩) htext).le
    · omega

/-- A paragraph with a text box. -/
def boxedDocument : Node :=
  .element "document" [] [.element "body" []
    [.element "p" [] [.element "r" [] [.element "t" [] [.text "a"]],
      .element "r" [] [.element "pict" [] [.element "txbxContent" []
        [.element "p" [] [.element "r" [] [.element "t" [] [.text "b"]]]]]]]]]

/-- **The text in a text box comes twice**, with the paragraph that the box stands in and with its
own. -/
theorem rawText_boxedDocument :
    let p : Package := ⟨boxedDocument, [], []⟩
    p.rawText = "ab\nb".toList ∧ p.texts.flatMap placeText = "ab".toList ∧
      p.paragraphTexts.flatten ≠ p.texts.flatMap placeText := by
  decide +kernel

end Interdoc.Docx

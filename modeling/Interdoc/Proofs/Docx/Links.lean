import Interdoc.Docx.Rendering
import Interdoc.Proofs.Docx.Formatting
import Interdoc.Proofs.Docx.Numbering

/-!
# Written links

A link of a paragraph names its target by a number, and the relationships of the package have the
target under that number (`lookupLast?_readTargets`).  So a paragraph is read as its parts, links
and all (`contentOf_node`), whatever else is in the package.
-/

namespace Interdoc.Docx

open Html (Piece)
open Xml (Node unbroken)
open Xml.Markup (Means mapM_value?_plain means_leaf means_group means_element)

/-! ### Targets -/

theorem linkId_inj {m n : Nat} : linkId m = linkId n ↔ m = n := by
  rw [linkId, linkId, String.append_right_inj, toString_inj]

theorem unbroken_linkId (n : Nat) : unbroken (linkId n) = linkId n := by
  refine Xml.unbroken_eq_self fun c hc => ?_
  rw [Xml.isInLine, Bool.and_eq_true, bne_iff_ne, bne_iff_ne]
  constructor <;> rintro rfl <;> exact absurd hc (not_mem_linkId (by decide) n)

/-- The node of the relationship for a link. -/
def relationshipNode (number : Nat) (target : String) : Node :=
  .element "Relationship"
    [("Id", linkId number), ("Type", Layout.relationshipSpace ++ "/hyperlink"),
     ("Target", unbroken target), ("TargetMode", "External")] []

theorem means_relationshipNode (number : Nat) (target : String) :
    Means (Layout.relationshipMarkup number target) (relationshipNode number target) := by
  have hconstants : unbroken (Layout.relationshipSpace ++ "/hyperlink") =
      Layout.relationshipSpace ++ "/hyperlink" ∧ unbroken "External" = "External" := by
    decide
  have h := means_leaf "Relationship"
    [("Id", linkId number), ("Type", Layout.relationshipSpace ++ "/hyperlink"),
     ("Target", target), ("TargetMode", "External")]
  simp only [List.map_cons, List.map_nil, unbroken_linkId, hconstants] at h
  exact h

theorem relationshipNodes_spec (pairs : List (Nat × String)) :
    List.Forall₂ Means (pairs.map fun (i, target) => Layout.relationshipMarkup (i + 1) target)
        (pairs.map fun (i, target) => relationshipNode (i + 1) target) ∧
      ∀ attributes, Package.relationshipsOf (.element "Relationships" attributes
          (pairs.map fun (i, target) => relationshipNode (i + 1) target)) =
        pairs.map fun (i, target) => (linkId (i + 1), unbroken target) := by
  induction pairs with
  | nil => exact ⟨.nil, fun _ => rfl⟩
  | cons pair pairs ih =>
    refine ⟨.cons (means_relationshipNode _ _) ih.1, fun attributes => ?_⟩
    rw [List.map_cons, List.map_cons, ← ih.2 attributes]
    rfl

namespace Layout

/-- The targets of the links by their ids, as they are read. -/
def readTargets (l : Layout) : List (String × String) :=
  ((List.range l.targets.length).zip l.targets).map fun (i, target) =>
    (linkId (i + 1), unbroken target)

theorem mem_zip_range {α : Type} {as : List α} {i : Nat} {a : α} :
    (i, a) ∈ (List.range as.length).zip as ↔ as[i]? = some a := by
  have hnumber (j : Nat) : (List.range as.length)[j]? = some i ↔ j < as.length ∧ j = i := by
    simp only [List.getElem?_eq_some_iff, List.getElem_range, List.length_range, exists_prop]
  simp only [List.mem_iff_getElem?, List.getElem?_zip_eq_some, hnumber]
  constructor
  · rintro ⟨j, ⟨-, rfl⟩, ha⟩
    exact ha
  · intro ha
    exact ⟨i, ⟨(List.getElem?_eq_some_iff.mp ha).1, rfl⟩, ha⟩

theorem exists_targetsNode (l : Layout) :
    ∃ n, Means l.relationshipsMarkup n ∧ Package.relationshipsOf n = l.readTargets := by
  obtain ⟨hmeans, hread⟩ := relationshipNodes_spec ((List.range l.targets.length).zip l.targets)
  exact ⟨_, means_element (mapM_value?_plain "xmlns" (by decide)) hmeans, hread _⟩

/-- **Each link is found with its target.** -/
theorem lookupLast?_readTargets {l : Layout} {i : Nat} {target : String}
    (h : l.targets[i]? = some target) :
    lookupLast? (linkId (i + 1)) l.readTargets = some (unbroken target) := by
  refine lookupLast?_eq_some (List.mem_map.mpr ⟨(i, target), mem_zip_range.mpr h, rfl⟩)
    fun v hv => ?_
  obtain ⟨⟨j, other⟩, hmem, heq⟩ := List.mem_map.mp hv
  obtain ⟨hid, rfl⟩ := Prod.mk.inj heq
  have hj : j = i := Nat.succ.inj (linkId_inj.mp hid)
  rw [mem_zip_range, hj, h] at hmem
  rw [Option.some.inj hmem]

end Layout

/-! ### Content -/

theorem segmentsAmong_map_node (pkg : Package) (inLink : Bool) (runs : List WrittenRun) :
    segmentsAmong pkg inLink (runs.map WrittenRun.node) =
      runs.map (WrittenRun.segment inLink) := by
  induction runs with
  | nil => rfl
  | cons r runs ih =>
    rw [List.map_cons, segmentsAmong, WrittenRun.segmentsOf_node, ih]
    rfl

/-- Parts of a paragraph are read as what they are, if the targets of their links are found. -/
theorem contentFrom_partNodes {pkg : Package} {next : Nat} {parts : List ParagraphPart}
    (h : ∀ i target, (linkTargets parts)[i]? = some target →
      pkg.target? (linkId (next + i)) = some (unbroken target)) (pending : List Segment) :
    contentFrom pkg pending (partNodes next parts) = readParts pending parts := by
  induction parts generalizing next pending with
  | nil => rfl
  | cons part parts ih =>
    cases part with
    | run r =>
      have hname : r.node.isNamed "hyperlink" = false := rfl
      rw [partNodes, contentFrom, hname, if_neg Bool.false_ne_true, WrittenRun.segmentsOf_node,
        readParts]
      exact ih h _
    | hyperlink target runs =>
      have htarget : pkg.target? (linkId next) = some (unbroken target) := h 0 target rfl
      have hrest : ∀ i t, (linkTargets parts)[i]? = some t →
          pkg.target? (linkId (next + 1 + i)) = some (unbroken t) := by
        intro i t hi
        rw [Nat.add_right_comm]
        exact h (i + 1) t hi
      have hlink : hyperlinkTarget pkg (.element "hyperlink"
          [("id", linkId next), ("history", "1")] (runs.map WrittenRun.node)) =
            unbroken target := by
        rw [hyperlinkTarget, show (Node.element "hyperlink" [("id", linkId next), ("history", "1")]
          (runs.map WrittenRun.node)).attribute? "id" = some (linkId next) from rfl,
          Option.bind_some, htarget]
      rw [partNodes, contentFrom, Node.isNamed, beq_self_eq_true, if_pos rfl, hlink, Node.children,
        segmentsAmong_map_node, ih hrest, readParts]

variable {q : WrittenParagraph}

/-- **A paragraph is read as its parts**, if the targets of its links are found. -/
theorem contentOf_node {pkg : Package} {next : Nat}
    (h : ∀ i target, (linkTargets q.parts)[i]? = some target →
      pkg.target? (linkId (next + i)) = some (unbroken target)) :
    contentOf pkg (q.node next) = readParts [] q.parts :=
  contentFrom_partNodes h []

/-! ### Packages -/

/-- **A paragraph with links is found in its package**, and the targets of the links. -/
theorem Layout.exists_linkedPackage (h : q.HasPlainColors) :
    ∃ p, (Layout.ofItem (.paragraph q)).package? = .ok p ∧
      bodyItems p = [.paragraph (.ofNode p (q.node 1))] ∧
      ∀ i target, (linkTargets q.parts)[i]? = some target →
        p.target? (linkId (1 + i)) = some (unbroken target) := by
  set l := Layout.ofItem (.paragraph q) with hl
  have htargets : l.targets = linkTargets q.parts := List.append_nil _
  obtain ⟨relationships, hrelationships, hread⟩ := l.exists_targetsNode
  obtain ⟨numbering, hnumbering, -⟩ := l.exists_numberingNode
  let body : Node := .element "body" [] [q.node 1, .element "sectPr" [] []]
  let document : Node :=
    .element "document" [("w", mainSpace), ("r", relationshipSpace)] [body]
  have hdocument : Means l.documentMarkup document :=
    means_element rfl (.cons (means_group
      (.cons (WrittenParagraph.means_node 1 h) (.cons (means_group .nil) .nil))) .nil)
  -- the body is the paragraph and the section, and the targets are those of its links
  refine ⟨⟨document, Package.relationshipsOf relationships, Package.numberingOf numbering⟩, ?_, rfl,
    fun i target hi => ?_⟩
  · rw [package?, hdocument.node?, hrelationships.node?, hnumbering.node?]
    rfl
  · rw [Package.target?, hread, Nat.add_comm]
    exact lookupLast?_readTargets (htargets ▸ hi)

/-- The HTML of a package with nothing but a paragraph of no special kind. -/
theorem pieces_paragraph {p : Package} {paragraph : Paragraph}
    (h : bodyItems p = [.paragraph paragraph]) (hkind : paragraph.kind = .normal)
    (hnumbering : paragraph.numbering? = none) :
    p.pieces = Html.element "p" paragraph.content := by
  rw [Package.pieces, h, Context.render, Context.step, hnumbering]
  simp only [Context.unnumbered, hkind]
  exact List.append_nil _

end Interdoc.Docx

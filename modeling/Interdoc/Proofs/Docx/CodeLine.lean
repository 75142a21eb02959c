import Interdoc.Proofs.Docx.Escape
import Interdoc.Proofs.Xml.Places

/-!
# Lines of code

The text of a line of code is that of the runs in its paragraph, wherever they stand in it: a run
counts unless it is in another run or in properties, and its texts, tabs and line breaks count in
their order (`codeParts`).

The runs are rendered first and the rendering is unescaped after that, for all of them together.
No character is lost on this way and none appears (`codeLineOf_eq_plain`), provided that no run
shows an image, whose tag would be read as text.
-/

namespace Interdoc.Docx

open Html (Piece)
open Xml (Node)
open Xml.Node (Place placesAmong forest_induction)

/-! ### Runs -/

/-- A path leads to a run of a paragraph: there are neither runs nor properties on it. -/
def LeadsToRun (path : List Node) : Prop :=
  ∀ outer ∈ path, outer.isNamed "r" = false ∧ outer.isNamed "pPr" = false ∧
    outer.isNamed "rPr" = false

instance (path : List Node) : Decidable (LeadsToRun path) :=
  inferInstanceAs (Decidable (∀ outer ∈ path, _ ∧ _ ∧ _))

/-- The runs among nodes and in them, in document order. -/
def runsAmong (nodes : List Node) : List Node :=
  ((placesAmong nodes).filter fun t => t.node.isNamed "r" && LeadsToRun t.path).map (·.node)

/-- What a part of a run is in a line of code.  Only a break of a line breaks it. -/
def codePart? (part : Node) : Option CodePart :=
  if part.isNamed "t" then some (.text part.ownText)
  else if part.isNamed "tab" then some (.text "\t")
  else if (part.isNamed "br" || part.isNamed "cr") &&
      (part.attribute? "type").all (· == "textWrapping") then some .lineBreak
  else none

/-- The texts and line breaks of a paragraph. -/
def codeParts (paragraph : Node) : List CodePart :=
  (runsAmong paragraph.children).flatMap fun run => run.children.filterMap codePart?

/-- No run of a paragraph shows an image. -/
def ShowsNoImage (p : Package) (paragraph : Node) : Prop :=
  ∀ run ∈ runsAmong paragraph.children, ∀ part ∈ run.children,
    part.isNamed "drawing" = true ∨ part.isNamed "pict" = true → image? p part = none

instance (p : Package) (paragraph : Node) : Decidable (ShowsNoImage p paragraph) :=
  inferInstanceAs (Decidable (∀ run ∈ _, ∀ part ∈ _, _ → _))

variable {p : Package} {node : Node} {nodes rest : List Node}

theorem leadsToRun_cons {path : List Node} :
    LeadsToRun (node :: path) ↔ (node.isNamed "r" = false ∧ node.isNamed "pPr" = false ∧
      node.isNamed "rPr" = false) ∧ LeadsToRun path :=
  List.forall_mem_cons

/-- In a run there is no other run that counts, and in properties there is none at all. -/
theorem runsAmong_cons : runsAmong (node :: rest) =
    (if node.isNamed "r" then [node]
      else if node.isNamed "pPr" || node.isNamed "rPr" then []
      else runsAmong node.children) ++ runsAmong rest := by
  have hwithin (t : Place) : ((t.within node).node.isNamed "r" && LeadsToRun (t.within node).path) =
      (!(node.isNamed "r" || node.isNamed "pPr" || node.isNamed "rPr") &&
        (t.node.isNamed "r" && LeadsToRun t.path)) := by
    simp only [Place.within, leadsToRun_cons, Bool.decide_and, Bool.decide_eq_false, Bool.not_or]
    ac_rfl
  unfold runsAmong
  rw [placesAmong, Node.places_eq, List.filter_append, List.map_append, List.filter_cons,
    List.filter_map]
  simp only [Function.comp_def, hwithin]
  congr 1
  cases node.isNamed "r" <;> cases node.isNamed "pPr" <;> cases node.isNamed "rPr" <;>
    simp [LeadsToRun, Function.comp_def, Place.within]

/-- **The segments of a paragraph** are those of its runs. -/
theorem segmentsAmong_eq_flatMap_runs (inLink : Bool) (nodes : List Node) :
    segmentsAmong p inLink nodes = (runsAmong nodes).flatMap (runSegments p · inLink) := by
  induction nodes using forest_induction with
  | nil => rfl
  | cons node rest ihChildren ihRest =>
    rw [segmentsAmong, ihRest, runsAmong_cons, List.flatMap_append]
    congr 1
    cases node with
    | text s => rfl
    | element name attributes children =>
      rw [segmentsOf]
      simp only [Node.isNamed, beq_iff_eq, Bool.or_eq_true, decide_eq_true_eq]
      split
      · exact (List.flatMap_singleton ..).symm
      · split
        · rfl
        · exact ihChildren

/-! ### Parts -/

/-- A part of a run that shows no image is rendered as what it is in a line of code. -/
theorem runPiece?_eq_codePart? {part : Node}
    (h : part.isNamed "drawing" = true ∨ part.isNamed "pict" = true → image? p part = none) :
    runPiece? p part = (codePart? part).map CodePart.piece := by
  cases part with
  | text s => rfl
  | element name attributes children =>
    have hdrawn : name = "drawing" ∨ name = "pict" →
        image? p (.element name attributes children) = none := by
      simpa [Node.isNamed] using h
    have hbreak : (attributes.lookup "type").all (· == "textWrapping") =
        ((attributes.lookup "type").getD "textWrapping" == "textWrapping") := by
      cases attributes.lookup "type" <;> rfl
    -- the names are looked for in the same order in both
    simp only [runPiece?, codePart?, Node.isNamed, Node.attribute?, hbreak, beq_iff_eq,
      Bool.or_eq_true, Bool.and_eq_true, decide_eq_true_eq]
    split
    · rfl
    · split
      · rfl
      · split
        · next hname =>
          simp only [hname, true_and, apply_ite (Option.map CodePart.piece)]
          rfl
        · next hname =>
          simp only [hname, false_and, if_false]
          split
          · next hdrawing => exact hdrawn hdrawing
          · rfl

theorem filterMap_runPiece? {parts : List Node}
    (h : ∀ part ∈ parts, part.isNamed "drawing" = true ∨ part.isNamed "pict" = true →
      image? p part = none) :
    parts.filterMap (runPiece? p) = (parts.filterMap codePart?).map CodePart.piece := by
  rw [List.map_filterMap]
  exact List.filterMap_congr fun part hpart => runPiece?_eq_codePart? (h part hpart)

/-- **The pieces of a paragraph without images** are its texts and line breaks. -/
theorem pieces_eq_codeParts {paragraph : Node} (h : ShowsNoImage p paragraph) :
    (segmentsAmong p false paragraph.children).map Segment.piece =
      (codeParts paragraph).map CodePart.piece := by
  rw [segmentsAmong_eq_flatMap_runs, codeParts, List.map_flatMap, List.map_flatMap]
  refine List.flatMap_congr fun run hrun => ?_
  rw [runSegments, List.map_map, ← filterMap_runPiece? (h run hrun)]
  exact List.map_id _

/-- **Text of a line of code.**  The texts and line breaks of a paragraph without images are escaped
and put together, and unescaping that gives the texts as they are and a line feed for each break,
whatever reads like a reference or a tag in a text or where two texts meet. -/
theorem codeLineOf_eq_plain (p : Package) (paragraph : Node) (h : ShowsNoImage p paragraph) :
    codeLineOf p paragraph = unescapeCode ((codeParts paragraph).flatMap CodePart.escaped) ∧
      codeLineOf p paragraph = (codeParts paragraph).flatMap CodePart.plain := by
  have hescaped :
      codeLineOf p paragraph = unescapeCode ((codeParts paragraph).flatMap CodePart.escaped) := by
    rw [codeLineOf, pieces_eq_codeParts h, render_pieces]
  exact ⟨hescaped, hescaped.trans (unescapeCode_escaped _)⟩

/-- A paragraph with parts of references on both sides of where its runs meet, with texts that read
like references and tags, and with breaks of lines and of a page. -/
def brokenReferences : Node :=
  .element "p" [] [
    .element "pPr" [] [.element "r" [] [.element "t" [] [.text "x"]]],
    .element "r" [] [.element "t" [] [.text "a &l"]],
    .element "ins" [] [.element "r" [] [.element "t" [] [.text "t; &amp;lt;"],
      .element "tab" [] [], .element "drawing" [] []]],
    .element "r" [] [.element "br" [] [], .element "t" [] [.text "<b"],
      .element "t" [] [.text "r>"], .element "br" [("type", "page")] [], .element "cr" [] [],
      .element "t" [] [.text "\"&quot;"]]]

theorem codeLineOf_eq_plain_brokenReferences :
    let p : Package := ⟨.element "document" [] [], [], []⟩
    ShowsNoImage p brokenReferences ∧
      codeParts brokenReferences = [.text "a &l", .text "t; &amp;lt;", .text "\t", .lineBreak,
        .text "<b", .text "r>", .lineBreak, .text "\"&quot;"] ∧
      codeLineOf p brokenReferences = "a &lt; &amp;lt;\t\n<br>\n\"&quot;".toList := by
  intro p
  have himages : ShowsNoImage p brokenReferences := by decide +kernel
  have hplain : (codeParts brokenReferences).flatMap CodePart.plain =
      "a &lt; &amp;lt;\t\n<br>\n\"&quot;".toList := by decide +kernel
  exact ⟨himages, by decide +kernel,
    (codeLineOf_eq_plain p brokenReferences himages).2.trans hplain⟩

end Interdoc.Docx

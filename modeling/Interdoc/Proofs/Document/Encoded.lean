import Interdoc.Document.Encoding
import Interdoc.Document.Normalize
import Interdoc.Document.Validation

/-!
# Documents that were written as JSON

What `Document.toJson` writes can be read again (`Document.ofJson?_toJson`), and nothing in it is a
violation (`Document.documentViolations_toJson`) if the levels of all headings are in range
(`Document.LevelsInRange`), which is the one thing that a document can get wrong.

Each induction goes through the tree with one lemma for each list of children.  A node is read and
checked by its kind, so every case begins with the branch of its kind.
-/

namespace Interdoc

/-! ### Levels -/

namespace Block

mutual

/-- All headings in a block have a level from 1 to 6. -/
def LevelsInRange : Block → Prop
  | .paragraph _ | .code _ _ | .rule => True
  | .heading level _ => 1 ≤ level ∧ level ≤ 6
  | .list _ items => LevelsInRangeItems items
  | .quote blocks => LevelsInRangeList blocks
  | .table none rows _ => LevelsInRangeRows rows
  | .table (some header) rows _ => LevelsInRangeItems header ∧ LevelsInRangeRows rows

/-- All headings in a sequence of blocks have a level from 1 to 6. -/
def LevelsInRangeList : List Block → Prop
  | [] => True
  | b :: rest => LevelsInRange b ∧ LevelsInRangeList rest

/-- All headings in a list of items or cells have a level from 1 to 6. -/
def LevelsInRangeItems : List (List Block) → Prop
  | [] => True
  | blocks :: rest => LevelsInRangeList blocks ∧ LevelsInRangeItems rest

/-- All headings in a list of rows have a level from 1 to 6. -/
def LevelsInRangeRows : List (List (List Block)) → Prop
  | [] => True
  | cells :: rest => LevelsInRangeItems cells ∧ LevelsInRangeRows rest

end

end Block

/-- All headings of a document have a level from 1 to 6. -/
def Document.LevelsInRange (d : Document) : Prop :=
  Block.LevelsInRangeList d.blocks

/-! ### Reading what was written -/

namespace Json

theorem nodeKind?_node (kind : String) (members : List (String × Json)) :
    (node kind members).nodeKind? = some kind := by
  simp [node, nodeKind?, member?]

theorem holdsParts_node (kind : String) (members : List (String × Json)) (n : Nat) :
    (node kind members).holdsParts n = true := rfl

theorem part?_node {kind name : String} (h : name ≠ "type") (members : List (String × Json))
    (position : Nat) : (node kind members).part? name position = member? name members := by
  rw [node, part?, member?, if_neg h.symm]

theorem get?_node {name : String} (h : name ≠ "type") (kind : String)
    (members : List (String × Json)) :
    (node kind members).get? name = member? name members := by
  rw [node, get?, member?, if_neg h.symm]

theorem kindOrProblem_node (kind : String) (members : List (String × Json)) :
    kindOrProblem (node kind members) = .ok kind := by
  simp [node, kindOrProblem, member?]

theorem member?_optional (name : String) (v : Option Json) : member? name (optional name v) = v := by
  cases v <;> simp [optional, member?]

theorem optionalString?_map (s : Option String) :
    optionalString? (s.map .string) = some s := by
  cases s <;> rfl

theorem mapM_alignment?_name (as : List Alignment) :
    (as.map fun a => Json.string a.name).mapM alignment? = some as := by
  induction as with
  | nil => rfl
  | cons a as ih =>
    rw [List.map_cons, List.mapM_cons, ih, alignment?, Alignment.ofName?_name]
    rfl

end Json

namespace Inline

open Json (nodeKind?_node holdsParts_node part?_node member? string? optionalString?_map
  member?_optional)

theorem ofJsonPart?_node {kind : String} {members : List (String × Json)} {position : Nat}
    {items : List Json} (h : member? "inlines" members = some (.array items)) :
    ofJsonPart? (.node kind members) position = ofJsonList? items := by
  rw [ofJsonPart?]
  split
  · next hp =>
    rw [part?_node (by decide), h] at hp
    cases hp
    rfl
  · next hp =>
    rw [part?_node (by decide), h] at hp
    exact absurd rfl (hp items)

mutual

/-- **An inline that was written is read again.** -/
theorem ofJson?_toJson : ∀ i : Inline, ofJson? i.toJson = some i
  | .text s => by
    rw [toJson, ofJson?, nodeKind?_node]
    simp [holdsParts_node, part?_node, member?, string?]
  | .code s => by
    rw [toJson, ofJson?, nodeKind?_node]
    simp [holdsParts_node, part?_node, member?, string?]
  | .lineBreak => by
    rw [toJson, ofJson?, nodeKind?_node]
    simp [holdsParts_node]
  | .image src alt => by
    rw [toJson, ofJson?, nodeKind?_node]
    simp [holdsParts_node, part?_node, member?_optional, optionalString?_map, member?, string?]
  | .strong xs => by
    rw [toJson, ofJson?, nodeKind?_node, ofJsonPart?_node rfl, ofJsonList?_toJsonList xs]
    simp [holdsParts_node]
  | .emphasis xs => by
    rw [toJson, ofJson?, nodeKind?_node, ofJsonPart?_node rfl, ofJsonList?_toJsonList xs]
    simp [holdsParts_node]
  | .underline xs => by
    rw [toJson, ofJson?, nodeKind?_node, ofJsonPart?_node rfl, ofJsonList?_toJsonList xs]
    simp [holdsParts_node]
  | .link href xs => by
    have hxs : member? "inlines" [("href", .string href), ("inlines", .array (toJsonList xs))]
        = some (.array (toJsonList xs)) := by simp [member?]
    rw [toJson, ofJson?, nodeKind?_node]
    simp [holdsParts_node, part?_node, member?, string?, ofJsonPart?_node hxs,
      ofJsonList?_toJsonList xs]

theorem ofJsonList?_toJsonList : ∀ xs : List Inline, ofJsonList? (toJsonList xs) = some xs
  | [] => by rw [toJsonList, ofJsonList?]
  | i :: rest => by
    rw [toJsonList, ofJsonList?, ofJson?_toJson i, ofJsonList?_toJsonList rest]
    rfl

end

end Inline

namespace Block

open Json (nodeKind?_node holdsParts_node part?_node member? string? bool? octet? alignments?
  optionalString?_map member?_optional mapM_alignment?_name)

section

variable {kind : String} {members : List (String × Json)} {items : List Json}

theorem blocksOfPart?_node {position : Nat} (h : member? "blocks" members = some (.array items)) :
    blocksOfPart? (.node kind members) position = ofJsonList? items := by
  rw [blocksOfPart?]
  split
  · next hp =>
    rw [part?_node (by decide), h] at hp
    cases hp
    rfl
  · next hp =>
    rw [part?_node (by decide), h] at hp
    exact absurd rfl (hp items)

theorem itemsOfPart?_node {name : String} (hn : name ≠ "type") {position : Nat}
    (h : member? name members = some (.array items)) :
    itemsOfPart? (.node kind members) name position = ofJsonItems? items := by
  rw [itemsOfPart?]
  split
  · next hp =>
    rw [part?_node hn, h] at hp
    cases hp
    rfl
  · next hp =>
    rw [part?_node hn, h] at hp
    exact absurd rfl (hp items)

theorem rowsOfPart?_node (h : member? "rows" members = some (.array items)) :
    rowsOfPart? (.node kind members) = ofJsonRows? items := by
  rw [rowsOfPart?]
  split
  · next hp =>
    rw [part?_node (by decide), h] at hp
    cases hp
    rfl
  · next hp =>
    rw [part?_node (by decide), h] at hp
    exact absurd rfl (hp items)

theorem headerOfPart?_node_none (h : member? "headerRow" members = none) :
    headerOfPart? (.node kind members) = some none := by
  rw [headerOfPart?]
  split
  · rfl
  · rfl
  · next hp =>
    rw [part?_node (by decide), h] at hp
    cases hp

theorem headerOfPart?_node_some
    (h : member? "headerRow" members = some (.node "TableRow" [("cells", .array items)])) :
    headerOfPart? (.node kind members) = (ofJsonItems? items).map some := by
  rw [headerOfPart?]
  split
  · next hp =>
    rw [part?_node (by decide), h] at hp
    cases hp
  · next hp =>
    rw [part?_node (by decide), h] at hp
    cases hp
  · next hp =>
    rw [part?_node (by decide), h] at hp
    cases hp
    rw [holdsParts_node, if_pos rfl, itemsOfPart?_node (by decide) rfl]

end

theorem alignments?_alignmentsMember (alignments : Option (List Alignment)) :
    alignments? (member? "alignments" (alignmentsMember alignments)) = some alignments := by
  rw [alignmentsMember, member?_optional]
  cases alignments with
  | none => rfl
  | some as =>
    rw [Option.map_some, alignments?, mapM_alignment?_name]
    rfl

theorem octet?_level {level : Nat} (h : 1 ≤ level ∧ level ≤ 6) :
    octet? (some (.integer level)) = some level := by
  have hlt : (level : Int) < 256 := by omega
  simp [octet?, hlt]

mutual

/-- **A block that was written is read again.** -/
theorem ofJson?_toJson : ∀ {b : Block}, LevelsInRange b → ofJson? b.toJson = some b
  | .paragraph xs, _ => by
    rw [toJson, ofJson?, nodeKind?_node, Inline.ofJsonPart?_node rfl,
      Inline.ofJsonList?_toJsonList]
    simp [holdsParts_node]
  | .heading level xs, h => by
    have hxs : member? "inlines"
        [("level", .integer level), ("inlines", .array (Inline.toJsonList xs))]
          = some (.array (Inline.toJsonList xs)) := by simp [member?]
    rw [toJson, ofJson?, nodeKind?_node]
    simp [holdsParts_node, part?_node, member?, octet?_level h, Inline.ofJsonPart?_node hxs,
      Inline.ofJsonList?_toJsonList]
  | .list ordered items, h => by
    have hi : member? "items"
        [("ordered", .bool ordered), ("items", .array (toJsonItems "ListItem" items))]
          = some (.array (toJsonItems "ListItem" items)) := by simp [member?]
    rw [toJson, ofJson?, nodeKind?_node, itemsOfPart?_node (by decide) hi,
      ofJsonItems?_toJsonItems "ListItem" h]
    simp [holdsParts_node, part?_node, member?, bool?]
  | .quote blocks, h => by
    rw [toJson, ofJson?, nodeKind?_node, blocksOfPart?_node rfl, ofJsonList?_toJsonList h]
    simp [holdsParts_node]
  | .code text language, _ => by
    rw [toJson, ofJson?, nodeKind?_node]
    simp [holdsParts_node, part?_node, member?_optional, optionalString?_map, member?, string?]
  | .rule, _ => by
    rw [toJson, ofJson?, nodeKind?_node]
    simp [holdsParts_node]
  | .table none rows alignments, h => by
    have hh : member? "headerRow" (("rows", .array (toJsonRows rows)) ::
        alignmentsMember alignments) = none := by
      cases alignments <;> simp [member?, alignmentsMember, Json.optional]
    rw [toJson, ofJson?, nodeKind?_node, headerOfPart?_node_none hh, rowsOfPart?_node rfl,
      ofJsonRows?_toJsonRows h]
    simp [holdsParts_node, part?_node, member?, alignments?_alignmentsMember]
  | .table (some header) rows alignments, h => by
    rw [toJson, ofJson?, nodeKind?_node, headerOfPart?_node_some rfl, rowsOfPart?_node rfl,
      ofJsonRows?_toJsonRows h.2, ofJsonItems?_toJsonItems "TableCell" h.1]
    simp [holdsParts_node, part?_node, member?, alignments?_alignmentsMember]

theorem ofJsonList?_toJsonList : ∀ {blocks : List Block}, LevelsInRangeList blocks →
    ofJsonList? (toJsonList blocks) = some blocks
  | [], _ => by rw [toJsonList, ofJsonList?]
  | b :: rest, h => by
    rw [toJsonList, ofJsonList?, ofJson?_toJson h.1, ofJsonList?_toJsonList h.2]
    rfl

theorem ofJsonItems?_toJsonItems (kind : String) : ∀ {items : List (List Block)},
    LevelsInRangeItems items → ofJsonItems? (toJsonItems kind items) = some items
  | [], _ => by rw [toJsonItems, ofJsonItems?]
  | blocks :: rest, h => by
    rw [toJsonItems, ofJsonItems?, holdsParts_node, if_pos rfl, blocksOfPart?_node rfl,
      ofJsonList?_toJsonList h.1, ofJsonItems?_toJsonItems kind h.2]
    rfl

theorem ofJsonRows?_toJsonRows : ∀ {rows : List (List (List Block))}, LevelsInRangeRows rows →
    ofJsonRows? (toJsonRows rows) = some rows
  | [], _ => by rw [toJsonRows, ofJsonRows?]
  | cells :: rest, h => by
    rw [toJsonRows, ofJsonRows?, holdsParts_node, if_pos rfl,
      itemsOfPart?_node (by decide) rfl, ofJsonItems?_toJsonItems "TableCell" h.1,
      ofJsonRows?_toJsonRows h.2]
    rfl

end

end Block

theorem Document.ofJson?_toJson {d : Document} (h : d.LevelsInRange) :
    Document.ofJson? d.toJson = some d := by
  rw [toJson, ofJson?, Json.holdsParts_node, if_pos rfl, Block.blocksOfPart?_node rfl,
    Block.ofJsonList?_toJsonList h]
  rfl

/-! ### Checking what was written -/

namespace Json

section

variable {kind : String} {members : List (String × Json)} {items : List Json}

theorem inlinesViolations_node (h : member? "inlines" members = some (.array items)) :
    inlinesViolations (node kind members) = inlineItemsViolations 0 items := by
  rw [← get?_node (by decide) kind] at h
  rw [inlinesViolations]
  split <;> grind

theorem blocksViolations_node (h : member? "blocks" members = some (.array items)) :
    blocksViolations (node kind members) = blockItemsViolations 0 items := by
  rw [← get?_node (by decide) kind] at h
  rw [blocksViolations]
  split <;> grind

theorem containersViolations_node {name inner : String} (hn : name ≠ "type")
    (h : member? name members = some (.array items)) :
    containersViolations (node kind members) name inner
      = containerItemsViolations name inner 0 items := by
  rw [← get?_node hn kind] at h
  rw [containersViolations]
  split <;> grind

theorem rowsViolations_node (h : member? "rows" members = some (.array items)) :
    rowsViolations (node kind members) = rowItemsViolations 0 items := by
  rw [← get?_node (by decide) kind] at h
  rw [rowsViolations]
  split <;> grind

theorem headerViolations_node_none (h : member? "headerRow" members = none) :
    headerViolations (node kind members) = [] := by
  rw [← get?_node (by decide) kind] at h
  rw [headerViolations]
  split <;> grind

theorem headerViolations_node_some {row : String} {parts : List (String × Json)}
    (h : member? "headerRow" members = some (node row parts)) :
    headerViolations (node kind members)
      = (rowViolations (node row parts)).map (.under [.member "headerRow"]) := by
  rw [← get?_node (by decide) kind] at h
  rw [headerViolations]
  split <;> grind [node]

end

theorem optionalStringViolations_node {kind name : String} {members : List (String × Json)}
    (hn : name ≠ "type") {s : Option String} (h : member? name members = s.map .string) :
    optionalStringViolations (node kind members) name = [] := by
  rw [optionalStringViolations, get?_node hn, h]
  cases s <;> rfl

theorem alignmentViolations_name (a : Alignment) : alignmentViolations (.string a.name) = [] := by
  rw [alignmentViolations, Alignment.ofName?_name]
  rfl

theorem alignmentsViolations_node {kind : String} {members : List (String × Json)}
    {alignments : Option (List Alignment)}
    (h : member? "alignments" members
      = alignments.map fun as => .array (as.map fun a => .string a.name)) :
    alignmentsViolations (node kind members) = [] := by
  rw [alignmentsViolations, get?_node (by decide), h]
  cases alignments with
  | none => rfl
  | some as =>
    rw [Option.map_some]
    simp only [List.flatten_eq_nil_iff, List.mem_map]
    rintro _ ⟨⟨v, k⟩, hv, rfl⟩
    obtain ⟨a, -, rfl⟩ := List.mem_map.mp (List.fst_mem_of_mem_zipIdx hv)
    rw [alignmentViolations_name, List.map_nil]

mutual

theorem inlineViolations_toJson : ∀ i : Inline, inlineViolations i.toJson = []
  | .text _ | .code _ => by
    rw [Inline.toJson, inlineViolations, kindOrProblem_node]
    simp [stringViolations, get?_node, member?]
  | .lineBreak => by
    rw [Inline.toJson, inlineViolations, kindOrProblem_node]
    simp
  | .image src alt => by
    have halt : member? "alt" (("src", .string src) :: optional "alt" (alt.map .string))
        = alt.map .string := by simp [member?, member?_optional]
    rw [Inline.toJson, inlineViolations, kindOrProblem_node]
    simp [stringViolations, get?_node, member?, optionalStringViolations_node _ halt]
  | .strong xs | .emphasis xs | .underline xs => by
    rw [Inline.toJson, inlineViolations, kindOrProblem_node, inlinesViolations_node rfl,
      inlineItemsViolations_toJsonList 0 xs]
    simp
  | .link href xs => by
    have hxs : member? "inlines"
        [("href", .string href), ("inlines", .array (Inline.toJsonList xs))]
          = some (.array (Inline.toJsonList xs)) := by simp [member?]
    rw [Inline.toJson, inlineViolations, kindOrProblem_node, inlinesViolations_node hxs,
      inlineItemsViolations_toJsonList 0 xs]
    simp [stringViolations, get?_node, member?]

theorem inlineItemsViolations_toJsonList (index : Nat) :
    ∀ xs : List Inline, inlineItemsViolations index (Inline.toJsonList xs) = []
  | [] => by rw [Inline.toJsonList, inlineItemsViolations]
  | i :: rest => by
    rw [Inline.toJsonList, inlineItemsViolations, inlineViolations_toJson i,
      inlineItemsViolations_toJsonList (index + 1) rest]
    rfl

end

mutual

theorem blockViolations_toJson : ∀ {b : Block}, b.LevelsInRange → blockViolations b.toJson = []
  | .paragraph xs, _ => by
    rw [Block.toJson, blockViolations, kindOrProblem_node, inlinesViolations_node rfl,
      inlineItemsViolations_toJsonList]
    simp
  | .heading level xs, h => by
    rw [Block.LevelsInRange] at h
    have hxs : member? "inlines"
        [("level", .integer level), ("inlines", .array (Inline.toJsonList xs))]
          = some (.array (Inline.toJsonList xs)) := by simp [member?]
    -- a level in range is neither negative nor too large
    have hl : levelViolations (node "Heading"
        [("level", .integer level), ("inlines", .array (Inline.toJsonList xs))]) = [] := by
      have h₀ : ¬ (level : Int) < 0 := by omega
      simp [levelViolations, get?_node, member?, h₀]
      omega
    rw [Block.toJson, blockViolations, kindOrProblem_node, inlinesViolations_node hxs,
      inlineItemsViolations_toJsonList, hl]
    simp
  | .list ordered items, h => by
    have hi : member? "items"
        [("ordered", .bool ordered), ("items", .array (Block.toJsonItems "ListItem" items))]
          = some (.array (Block.toJsonItems "ListItem" items)) := by simp [member?]
    rw [Block.toJson, blockViolations, kindOrProblem_node,
      containersViolations_node (by decide) hi,
      containerItemsViolations_toJsonItems "items" "ListItem" 0 h]
    simp [orderedViolations, get?_node, member?]
  | .quote blocks, h => by
    rw [Block.toJson, blockViolations, kindOrProblem_node, blocksViolations_node rfl,
      blockItemsViolations_toJsonList 0 h]
    simp
  | .code text language, _ => by
    have hl : member? "language" (("text", .string text) ::
        optional "language" (language.map .string)) = language.map .string := by
      simp [member?, member?_optional]
    rw [Block.toJson, blockViolations, kindOrProblem_node]
    simp [stringViolations, get?_node, member?, optionalStringViolations_node _ hl]
  | .rule, _ => by
    rw [Block.toJson, blockViolations, kindOrProblem_node]
    simp
  | .table none rows alignments, h => by
    have hh : member? "headerRow" (("rows", .array (Block.toJsonRows rows)) ::
        Block.alignmentsMember alignments) = none := by
      cases alignments <;> simp [member?, Block.alignmentsMember, optional]
    have ha : member? "alignments" (("rows", .array (Block.toJsonRows rows)) ::
        Block.alignmentsMember alignments)
          = alignments.map fun as => .array (as.map fun a => .string a.name) := by
      simp [member?, Block.alignmentsMember, member?_optional]
    rw [Block.toJson, blockViolations, kindOrProblem_node, headerViolations_node_none hh,
      rowsViolations_node rfl, rowItemsViolations_toJsonRows 0 h, alignmentsViolations_node ha]
    simp
  | .table (some header) rows alignments, h => by
    have hr : member? "rows"
        (("headerRow", node "TableRow"
            [("cells", .array (Block.toJsonItems "TableCell" header))]) ::
          ("rows", .array (Block.toJsonRows rows)) :: Block.alignmentsMember alignments)
            = some (.array (Block.toJsonRows rows)) := by simp [member?]
    have ha : member? "alignments"
        (("headerRow", node "TableRow"
            [("cells", .array (Block.toJsonItems "TableCell" header))]) ::
          ("rows", .array (Block.toJsonRows rows)) :: Block.alignmentsMember alignments)
            = alignments.map fun as => .array (as.map fun a => .string a.name) := by
      simp [member?, Block.alignmentsMember, member?_optional]
    rw [Block.toJson, blockViolations, kindOrProblem_node, headerViolations_node_some rfl,
      rowViolations_toJson h.1, rowsViolations_node hr, rowItemsViolations_toJsonRows 0 h.2,
      alignmentsViolations_node ha]
    simp

theorem blockItemsViolations_toJsonList (index : Nat) : ∀ {blocks : List Block},
    Block.LevelsInRangeList blocks → blockItemsViolations index (Block.toJsonList blocks) = []
  | [], _ => by rw [Block.toJsonList, blockItemsViolations]
  | b :: rest, h => by
    rw [Block.toJsonList, blockItemsViolations, blockViolations_toJson h.1,
      blockItemsViolations_toJsonList (index + 1) h.2]
    rfl

theorem containerItemsViolations_toJsonItems (name kind : String) (index : Nat) :
    ∀ {items : List (List Block)}, Block.LevelsInRangeItems items →
      containerItemsViolations name kind index (Block.toJsonItems kind items) = []
  | [], _ => by rw [Block.toJsonItems, containerItemsViolations]
  | blocks :: rest, h => by
    rw [Block.toJsonItems, containerItemsViolations, containerViolations, kindOrProblem_node,
      blocksViolations_node rfl, blockItemsViolations_toJsonList 0 h.1,
      containerItemsViolations_toJsonItems name kind (index + 1) h.2]
    simp

theorem rowViolations_toJson : ∀ {cells : List (List Block)}, Block.LevelsInRangeItems cells →
    rowViolations (node "TableRow" [("cells", .array (Block.toJsonItems "TableCell" cells))]) = []
  | cells, h => by
    rw [rowViolations, kindOrProblem_node, containersViolations_node (by decide) rfl,
      containerItemsViolations_toJsonItems "cells" "TableCell" 0 h]
    simp

theorem rowItemsViolations_toJsonRows (index : Nat) : ∀ {rows : List (List (List Block))},
    Block.LevelsInRangeRows rows → rowItemsViolations index (Block.toJsonRows rows) = []
  | [], _ => by rw [Block.toJsonRows, rowItemsViolations]
  | cells :: rest, h => by
    rw [Block.toJsonRows, rowItemsViolations, rowViolations_toJson h.1,
      rowItemsViolations_toJsonRows (index + 1) h.2]
    rfl

end

end Json

/-- **A document that was written has no violations**, if all its headings have a level. -/
theorem Document.documentViolations_toJson {d : Document} (h : d.LevelsInRange) :
    d.toJson.documentViolations = [] := by
  rw [Json.documentViolations, toJson, Json.kindOrProblem_node, Json.blocksViolations_node rfl,
    Json.blockItemsViolations_toJsonList 0 h]
  simp

end Interdoc

import Interdoc.Document.Basic
import Interdoc.Json.Basic

/-!
# Documents as JSON

Every node of a document is an object with the name of its kind in the member `type`; an absent
optional part is left out.  `Document.toJson` writes documents, and `Document.ofJson?` reads them:

* members that are not asked for are ignored, and an optional part may be `null`;
* a node may also be an array that holds its parts in order, after the name of its kind if the node
  is a block or an inline;
* the names of documents, items, rows and cells are not looked at, since their place decides what
  they are.

Reading is by recursion on the size of the value: a part is smaller than its whole.
-/

namespace Interdoc

/-! ### Writing -/

/-- A node of the given kind. -/
def Json.node (kind : String) (members : List (String × Json)) : Json :=
  .object (("type", .string kind) :: members)

/-- The member for an optional part, if the part is there. -/
def Json.optional (name : String) : Option Json → List (String × Json)
  | none => []
  | some v => [(name, v)]

namespace Inline

mutual

/-- An inline as JSON. -/
def toJson : Inline → Json
  | .text s => .node "Text" [("text", .string s)]
  | .strong inlines => .node "Strong" [("inlines", .array (toJsonList inlines))]
  | .emphasis inlines => .node "Emphasis" [("inlines", .array (toJsonList inlines))]
  | .underline inlines => .node "Underline" [("inlines", .array (toJsonList inlines))]
  | .code s => .node "CodeSpan" [("text", .string s)]
  | .lineBreak => .node "LineBreak" []
  | .link href inlines =>
    .node "Link" [("href", .string href), ("inlines", .array (toJsonList inlines))]
  | .image src alt => .node "Image" (("src", .string src) :: Json.optional "alt" (alt.map .string))

/-- A sequence of inlines as JSON. -/
def toJsonList : List Inline → List Json
  | [] => []
  | i :: rest => toJson i :: toJsonList rest

end

end Inline

namespace Block

mutual

/-- A block as JSON. -/
def toJson : Block → Json
  | .paragraph inlines => .node "Paragraph" [("inlines", .array (Inline.toJsonList inlines))]
  | .heading level inlines =>
    .node "Heading"
      [("level", .integer level), ("inlines", .array (Inline.toJsonList inlines))]
  | .list ordered items =>
    .node "List" [("ordered", .bool ordered), ("items", .array (toJsonItems "ListItem" items))]
  | .quote blocks => .node "Blockquote" [("blocks", .array (toJsonList blocks))]
  | .code text language =>
    .node "CodeBlock"
      (("text", .string text) :: Json.optional "language" (language.map .string))
  | .rule => .node "HorizontalRule" []
  | .table none rows alignments =>
    .node "Table" (("rows", .array (toJsonRows rows)) :: alignmentsMember alignments)
  | .table (some header) rows alignments =>
    .node "Table"
      (("headerRow", .node "TableRow" [("cells", .array (toJsonItems "TableCell" header))]) ::
        ("rows", .array (toJsonRows rows)) :: alignmentsMember alignments)

/-- A sequence of blocks as JSON. -/
def toJsonList : List Block → List Json
  | [] => []
  | b :: rest => toJson b :: toJsonList rest

/-- A list of items or cells as JSON, each a node of the given kind. -/
def toJsonItems (kind : String) : List (List Block) → List Json
  | [] => []
  | blocks :: rest => .node kind [("blocks", .array (toJsonList blocks))] :: toJsonItems kind rest

/-- A list of rows as JSON. -/
def toJsonRows : List (List (List Block)) → List Json
  | [] => []
  | cells :: rest =>
    .node "TableRow" [("cells", .array (toJsonItems "TableCell" cells))] :: toJsonRows rest

/-- The member for the alignments of a table. -/
def alignmentsMember (alignments : Option (List Alignment)) : List (String × Json) :=
  Json.optional "alignments" (alignments.map fun as => .array (as.map fun a => .string a.name))

end

end Block

/-- A document as JSON. -/
def Document.toJson (d : Document) : Json :=
  .node "Document" [("blocks", .array (Block.toJsonList d.blocks))]

/-! ### Reading -/

namespace Json

/-- The kind of a block or inline: its member `type`, or the first item of an array. -/
def nodeKind? : Json → Option String
  | .object members =>
    match member? "type" members with
    | some (.string kind) => some kind
    | _ => none
  | .array (.string kind :: _) => some kind
  | _ => none

/-- A part of a node: the member with the name, or the item of an array at the position. -/
def part? (v : Json) (name : String) (position : Nat) : Option Json :=
  match v with
  | .object members => member? name members
  | .array items => items[position]?
  | _ => none

/-- Whether a node can have its parts: an object always can, an array only if it holds no more items
than there are parts. -/
def holdsParts (v : Json) (parts : Nat) : Bool :=
  match v with
  | .object _ => true
  | .array items => items.length ≤ parts
  | _ => false

/-- A part is smaller than its node. -/
theorem sizeOf_part? {v w : Json} {name : String} {position : Nat}
    (h : v.part? name position = some w) : sizeOf w < sizeOf v := by
  unfold part? at h
  split at h
  · have := sizeOf_member? h
    simp
    omega
  · next items =>
    obtain ⟨hlt, rfl⟩ := List.getElem?_eq_some_iff.1 h
    have := List.sizeOf_lt_of_mem (List.getElem_mem hlt)
    simp
    omega
  · simp at h

/-- The string in a part that must be there. -/
def string? : Option Json → Option String
  | some (.string s) => some s
  | _ => none

/-- The string in a part that may be missing or `null`. -/
def optionalString? : Option Json → Option (Option String)
  | none | some .null => some none
  | some (.string s) => some (some s)
  | _ => none

/-- The truth value in a part that must be there. -/
def bool? : Option Json → Option Bool
  | some (.bool b) => some b
  | _ => none

/-- The natural number below 256 in a part that must be there. -/
def octet? : Option Json → Option Nat
  | some (.integer n) => if 0 ≤ n && n < 256 then some n.toNat else none
  | _ => none

/-- One alignment. -/
def alignment? : Json → Option Alignment
  | .string s => Alignment.ofName? s
  | _ => none

/-- The alignments in a part that may be missing or `null`. -/
def alignments? : Option Json → Option (Option (List Alignment))
  | none | some .null => some none
  | some (.array items) => (items.mapM alignment?).map some
  | _ => none

end Json

namespace Inline

mutual

/-- The inline that a value denotes. -/
def ofJson? (v : Json) : Option Inline := do
  let kind ← v.nodeKind?
  if kind = "Text" ∧ v.holdsParts 2 then
    return .text (← Json.string? (v.part? "text" 1))
  else if kind = "Strong" ∧ v.holdsParts 2 then
    return .strong (← ofJsonPart? v 1)
  else if kind = "Emphasis" ∧ v.holdsParts 2 then
    return .emphasis (← ofJsonPart? v 1)
  else if kind = "Underline" ∧ v.holdsParts 2 then
    return .underline (← ofJsonPart? v 1)
  else if kind = "CodeSpan" ∧ v.holdsParts 2 then
    return .code (← Json.string? (v.part? "text" 1))
  else if kind = "LineBreak" ∧ v.holdsParts 1 then
    return .lineBreak
  else if kind = "Link" ∧ v.holdsParts 3 then
    return .link (← Json.string? (v.part? "href" 1)) (← ofJsonPart? v 2)
  else if kind = "Image" ∧ v.holdsParts 3 then
    return .image (← Json.string? (v.part? "src" 1)) (← Json.optionalString? (v.part? "alt" 2))
  else none
termination_by (sizeOf v, 1)

/-- The inlines in the part `inlines` of a node. -/
def ofJsonPart? (v : Json) (position : Nat) : Option (List Inline) :=
  match _h : v.part? "inlines" position with
  | some (.array items) => ofJsonList? items
  | _ => none
termination_by (sizeOf v, 0)
decreasing_by
  have := Json.sizeOf_part? _h
  simp at this
  exact Prod.Lex.left _ _ (by omega)

/-- The inlines that a list of values denotes. -/
def ofJsonList? : List Json → Option (List Inline)
  | [] => some []
  | v :: rest => do return (← ofJson? v) :: (← ofJsonList? rest)
termination_by items => (sizeOf items, 0)

end

end Inline

namespace Block

mutual

/-- The block that a value denotes. -/
def ofJson? (v : Json) : Option Block := do
  let kind ← v.nodeKind?
  if kind = "Paragraph" ∧ v.holdsParts 2 then
    return .paragraph (← Inline.ofJsonPart? v 1)
  else if kind = "Heading" ∧ v.holdsParts 3 then
    return .heading (← Json.octet? (v.part? "level" 1)) (← Inline.ofJsonPart? v 2)
  else if kind = "List" ∧ v.holdsParts 3 then
    return .list (← Json.bool? (v.part? "ordered" 1)) (← itemsOfPart? v "items" 2)
  else if kind = "Blockquote" ∧ v.holdsParts 2 then
    return .quote (← blocksOfPart? v 1)
  else if kind = "CodeBlock" ∧ v.holdsParts 3 then
    return .code (← Json.string? (v.part? "text" 1))
      (← Json.optionalString? (v.part? "language" 2))
  else if kind = "HorizontalRule" ∧ v.holdsParts 1 then
    return .rule
  else if kind = "Table" ∧ v.holdsParts 4 then
    return .table (← headerOfPart? v) (← rowsOfPart? v)
      (← Json.alignments? (v.part? "alignments" 3))
  else none
termination_by (sizeOf v, 1)

/-- The blocks in the part `blocks` of a node. -/
def blocksOfPart? (v : Json) (position : Nat) : Option (List Block) :=
  match _h : v.part? "blocks" position with
  | some (.array items) => ofJsonList? items
  | _ => none
termination_by (sizeOf v, 0)
decreasing_by
  have := Json.sizeOf_part? _h
  simp at this
  exact Prod.Lex.left _ _ (by omega)

/-- The items or cells in a part of a node. -/
def itemsOfPart? (v : Json) (name : String) (position : Nat) : Option (List (List Block)) :=
  match _h : v.part? name position with
  | some (.array items) => ofJsonItems? items
  | _ => none
termination_by (sizeOf v, 0)
decreasing_by
  have := Json.sizeOf_part? _h
  simp at this
  exact Prod.Lex.left _ _ (by omega)

/-- The header row in a part of a table that may be missing or `null`. -/
def headerOfPart? (v : Json) : Option (Option (List (List Block))) :=
  match _h : v.part? "headerRow" 1 with
  | none | some .null => some none
  | some row => if row.holdsParts 1 then (itemsOfPart? row "cells" 0).map some else none
termination_by (sizeOf v, 0)
decreasing_by
  have := Json.sizeOf_part? _h
  exact Prod.Lex.left _ _ (by omega)

/-- The rows in a part of a table. -/
def rowsOfPart? (v : Json) : Option (List (List (List Block))) :=
  match _h : v.part? "rows" 2 with
  | some (.array items) => ofJsonRows? items
  | _ => none
termination_by (sizeOf v, 0)
decreasing_by
  have := Json.sizeOf_part? _h
  simp at this
  exact Prod.Lex.left _ _ (by omega)

/-- The blocks that a list of values denotes. -/
def ofJsonList? : List Json → Option (List Block)
  | [] => some []
  | v :: rest => do return (← ofJson? v) :: (← ofJsonList? rest)
termination_by items => (sizeOf items, 0)

/-- The items or cells that a list of values denotes. -/
def ofJsonItems? : List Json → Option (List (List Block))
  | [] => some []
  | v :: rest =>
    if v.holdsParts 1 then do return (← blocksOfPart? v 0) :: (← ofJsonItems? rest) else none
termination_by items => (sizeOf items, 0)

/-- The rows that a list of values denotes. -/
def ofJsonRows? : List Json → Option (List (List (List Block)))
  | [] => some []
  | v :: rest =>
    if v.holdsParts 1 then do return (← itemsOfPart? v "cells" 0) :: (← ofJsonRows? rest) else none
termination_by items => (sizeOf items, 0)

end

end Block

/-- The document that a value denotes. -/
def Document.ofJson? (v : Json) : Option Document :=
  if v.holdsParts 1 then (Block.blocksOfPart? v 0).map Document.mk else none

end Interdoc

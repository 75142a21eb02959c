import Interdoc.Document.Basic
import Interdoc.Json.Printer

/-!
# Validation of documents given as JSON

`Json.documentViolations` reports every place where a JSON value differs from the form of a
document, in the order of the tree, and does not stop at the first.  A `Violation` is the path from
the root to the node together with the `Problem` found there.

Each function reports on one value as if it were the root; the report of a part is moved under the
path of the part (`Violation.under`).  So what is reported about a part depends on the part alone.
-/

namespace Interdoc

/-- A step from a node to a part of it. -/
inductive Step where
  | member (name : String)
  | item (index : Nat)
  deriving DecidableEq, Repr

/-- What is wrong with a node. -/
inductive Problem where
  | notObject (found : String)
  | kindNotString (found : String)
  | missingKind
  | notArray (name found : String)
  | notString (name found : String)
  | missing (name : String)
  | otherKind (expected found : String)
  | levelOutside (level : Int)
  | levelNotInteger
  | orderedNotBool
  | notInSequence (kind : String)
  | unknownBlock (kind : String)
  | unknownInline (kind : String)
  /-- The alignment, as a JSON text. -/
  | unknownAlignment (found : String)
  deriving DecidableEq, Repr

/-- A problem in words. -/
def Problem.message : Problem → String
  | .notObject found => "expected an object, found " ++ found
  | .kindNotString found => "'type' must be a string, found " ++ found
  | .missingKind => "missing 'type' tag"
  | .notArray name found => "'" ++ name ++ "' must be an array, found " ++ found
  | .notString name found => "'" ++ name ++ "' must be a string, found " ++ found
  | .missing name => "missing '" ++ name ++ "'"
  | .otherKind expected found => "expected '" ++ expected ++ "', found '" ++ found ++ "'"
  | .levelOutside level => "heading level " ++ toString level ++ " is outside 1..=6"
  | .levelNotInteger => "'level' must be an integer in 1..=6"
  | .orderedNotBool => "'ordered' must be a boolean"
  | .notInSequence kind => "'" ++ kind ++ "' is not allowed in a block sequence"
  | .unknownBlock kind => "unknown block type '" ++ kind ++ "'"
  | .unknownInline kind => "unknown inline type '" ++ kind ++ "'"
  | .unknownAlignment found => "unrecognized alignment " ++ found

/-- A problem and where it is. -/
structure Violation where
  path : List Step
  problem : Problem
  deriving DecidableEq, Repr

namespace Violation

/-- A problem at the root. -/
def here (problem : Problem) : Violation := ⟨[], problem⟩

/-- The violation as it is seen from further up. -/
def under (path : List Step) (v : Violation) : Violation :=
  { v with path := path ++ v.path }

/-- A path with a slash before each step. -/
def pathText : List Step → String
  | [] => ""
  | .member name :: rest => "/" ++ name ++ pathText rest
  | .item index :: rest => "/" ++ toString index ++ pathText rest

/-- The violation in words; the root is written as one slash. -/
def message (v : Violation) : String :=
  (if v.path.isEmpty then "/" else pathText v.path) ++ ": " ++ v.problem.message

end Violation

namespace Json

/-- The kind of a node, or what is wrong with it. -/
def kindOrProblem : Json → Except Problem String
  | .object members =>
    match member? "type" members with
    | some (.string kind) => .ok kind
    | some other => .error (.kindNotString other.kind)
    | none => .error .missingKind
  | other => .error (.notObject other.kind)

/-- The violations at a string that must be there. -/
def stringViolations (v : Json) (name : String) : List Violation :=
  match v.get? name with
  | some (.string _) => []
  | some other => [.here (.notString name other.kind)]
  | none => [.here (.missing name)]

/-- The violations at a string that may be missing or `null`. -/
def optionalStringViolations (v : Json) (name : String) : List Violation :=
  match v.get? name with
  | none | some .null | some (.string _) => []
  | some other => [.here (.notString name other.kind)]

/-- The violations at the level of a heading. -/
def levelViolations (v : Json) : List Violation :=
  match v.get? "level" with
  | some (.integer n) =>
    if n < 0 then [.here .levelNotInteger]
    else if 1 ≤ n && n ≤ 6 then []
    else [.here (.levelOutside n)]
  | _ => [.here .levelNotInteger]

/-- The violations at the kind of a list. -/
def orderedViolations (v : Json) : List Violation :=
  match v.get? "ordered" with
  | some (.bool _) => []
  | _ => [.here .orderedNotBool]

/-- The violations of an alignment. -/
def alignmentViolations (v : Json) : List Violation :=
  let unknown : Violation := .here (.unknownAlignment (String.ofList (compact v)))
  match v with
  | .string s => if (Alignment.ofName? s).isSome then [] else [unknown]
  | _ => [unknown]

/-- The violations at the alignments of a table. -/
def alignmentsViolations (v : Json) : List Violation :=
  match v.get? "alignments" with
  | none | some .null => []
  | some (.array items) =>
    (items.zipIdx.map fun (a, k) =>
      (alignmentViolations a).map (.under [.member "alignments", .item k])).flatten
  | some other => [.here (.notArray "alignments" other.kind)]

/-- The member of an object is smaller than the object. -/
theorem sizeOf_get? {name : String} {v w : Json} (h : v.get? name = some w) :
    sizeOf w < sizeOf v := by
  unfold get? at h
  split at h
  · have := sizeOf_member? h
    simp
    omega
  · simp at h

/-! ### Inlines -/

mutual

/-- The violations of an inline. -/
def inlineViolations (v : Json) : List Violation :=
  match kindOrProblem v with
  | .error problem => [.here problem]
  | .ok kind =>
    if kind = "Text" then stringViolations v "text"
    else if kind = "CodeSpan" then stringViolations v "text"
    else if kind = "Strong" then inlinesViolations v
    else if kind = "Emphasis" then inlinesViolations v
    else if kind = "Underline" then inlinesViolations v
    else if kind = "Link" then stringViolations v "href" ++ inlinesViolations v
    else if kind = "Image" then stringViolations v "src" ++ optionalStringViolations v "alt"
    else if kind = "LineBreak" then []
    else [.here (.unknownInline kind)]
termination_by (sizeOf v, 1)

/-- The violations in the member `inlines` of a node. -/
def inlinesViolations (v : Json) : List Violation :=
  match _h : v.get? "inlines" with
  | some (.array items) => inlineItemsViolations 0 items
  | some other => [.here (.notArray "inlines" other.kind)]
  | none => [.here (.missing "inlines")]
termination_by (sizeOf v, 0)
decreasing_by
  have := sizeOf_get? _h
  simp at this
  exact Prod.Lex.left _ _ (by omega)

/-- The violations of inlines in the member `inlines`, the first of which has the given index. -/
def inlineItemsViolations (index : Nat) : List Json → List Violation
  | [] => []
  | v :: rest =>
    (inlineViolations v).map (.under [.member "inlines", .item index]) ++
      inlineItemsViolations (index + 1) rest
termination_by items => (sizeOf items, 0)

end

/-! ### Blocks -/

mutual

/-- The violations of a block. -/
def blockViolations (v : Json) : List Violation :=
  match kindOrProblem v with
  | .error problem => [.here problem]
  | .ok kind =>
    if kind = "Paragraph" then inlinesViolations v
    else if kind = "Heading" then levelViolations v ++ inlinesViolations v
    else if kind = "List" then orderedViolations v ++ containersViolations v "items" "ListItem"
    else if kind = "Blockquote" then blocksViolations v
    else if kind = "CodeBlock" then
      stringViolations v "text" ++ optionalStringViolations v "language"
    else if kind = "HorizontalRule" then []
    else if kind = "Table" then headerViolations v ++ rowsViolations v ++ alignmentsViolations v
    else if ["ListItem", "TableRow", "TableCell", "Document"].contains kind then
      [.here (.notInSequence kind)]
    else [.here (.unknownBlock kind)]
termination_by (sizeOf v, 1)

/-- The violations in the member `blocks` of a node. -/
def blocksViolations (v : Json) : List Violation :=
  match _h : v.get? "blocks" with
  | some (.array items) => blockItemsViolations 0 items
  | some other => [.here (.notArray "blocks" other.kind)]
  | none => [.here (.missing "blocks")]
termination_by (sizeOf v, 0)
decreasing_by
  have := sizeOf_get? _h
  simp at this
  exact Prod.Lex.left _ _ (by omega)

/-- The violations of blocks in the member `blocks`, the first of which has the given index. -/
def blockItemsViolations (index : Nat) : List Json → List Violation
  | [] => []
  | v :: rest =>
    (blockViolations v).map (.under [.member "blocks", .item index]) ++
      blockItemsViolations (index + 1) rest
termination_by items => (sizeOf items, 0)

/-- The violations in a member of a node that holds nodes of one kind, each a sequence of blocks. -/
def containersViolations (v : Json) (name kind : String) : List Violation :=
  match _h : v.get? name with
  | some (.array items) => containerItemsViolations name kind 0 items
  | some other => [.here (.notArray name other.kind)]
  | none => [.here (.missing name)]
termination_by (sizeOf v, 0)
decreasing_by
  have := sizeOf_get? _h
  simp at this
  exact Prod.Lex.left _ _ (by omega)

/-- The violations of a node of the given kind that holds a sequence of blocks. -/
def containerViolations (kind : String) (v : Json) : List Violation :=
  match kindOrProblem v with
  | .error problem => [.here problem]
  | .ok found => if found = kind then blocksViolations v else [.here (.otherKind kind found)]
termination_by (sizeOf v, 1)

/-- The violations of such nodes in a member, the first of which has the given index. -/
def containerItemsViolations (name kind : String) (index : Nat) : List Json → List Violation
  | [] => []
  | v :: rest =>
    (containerViolations kind v).map (.under [.member name, .item index]) ++
      containerItemsViolations name kind (index + 1) rest
termination_by items => (sizeOf items, 0)

/-- The violations of a row. -/
def rowViolations (v : Json) : List Violation :=
  match kindOrProblem v with
  | .error problem => [.here problem]
  | .ok found =>
    if found = "TableRow" then containersViolations v "cells" "TableCell"
    else [.here (.otherKind "TableRow" found)]
termination_by (sizeOf v, 1)

/-- The violations at the header row of a table, which may be missing or `null`. -/
def headerViolations (v : Json) : List Violation :=
  match _h : v.get? "headerRow" with
  | none | some .null => []
  | some row => (rowViolations row).map (.under [.member "headerRow"])
termination_by (sizeOf v, 0)
decreasing_by
  have := sizeOf_get? _h
  exact Prod.Lex.left _ _ (by omega)

/-- The violations in the rows of a table. -/
def rowsViolations (v : Json) : List Violation :=
  match _h : v.get? "rows" with
  | some (.array items) => rowItemsViolations 0 items
  | some other => [.here (.notArray "rows" other.kind)]
  | none => [.here (.missing "rows")]
termination_by (sizeOf v, 0)
decreasing_by
  have := sizeOf_get? _h
  simp at this
  exact Prod.Lex.left _ _ (by omega)

/-- The violations of rows in the member `rows`, the first of which has the given index. -/
def rowItemsViolations (index : Nat) : List Json → List Violation
  | [] => []
  | v :: rest =>
    (rowViolations v).map (.under [.member "rows", .item index]) ++
      rowItemsViolations (index + 1) rest
termination_by items => (sizeOf items, 0)

end

/-- The violations of a document. -/
def documentViolations (v : Json) : List Violation :=
  match kindOrProblem v with
  | .error problem => [.here problem]
  | .ok found =>
    (if found = "Document" then [] else [.here (.otherKind "Document" found)]) ++
      blocksViolations v

end Json

end Interdoc

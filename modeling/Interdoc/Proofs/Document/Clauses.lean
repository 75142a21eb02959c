import Interdoc.Document.Validation
import Mathlib.Tactic.SplitIfs

/-!
# Validation clause by clause

What is reported about a value depends on the `Role` in which it stands.  A node of a kind is
checked clause by clause: `Role.clauses` is the table of what is checked, and `Clause.report` what a
clause reports (`violations_of_kind`).  Each clause reads one member (`report_congr`), and no two of
them read the same one (`nodup_names_clauses`).
-/

namespace Interdoc.Json

open Violation (under here)
open scoped List

/-! ### Roles and clauses -/

/-- What a value is checked as. -/
inductive Role where
  | document
  | block
  | inline
  | item
  | row
  /-- A row that may be `null`. -/
  | headerRow
  | cell
  deriving DecidableEq, Repr

/-- The report on a header row. -/
def headerRowViolations : Json → List Violation
  | .null => []
  | v => rowViolations v

/-- The report on a value in a role. -/
def Role.violations : Role → Json → List Violation
  | .document => documentViolations
  | .block => blockViolations
  | .inline => inlineViolations
  | .item => containerViolations "ListItem"
  | .row => rowViolations
  | .headerRow => headerRowViolations
  | .cell => containerViolations "TableCell"

/-- What is checked of a node. -/
inductive Clause where
  /-- The kind of the node is wrong. -/
  | problem (p : Problem)
  | string (name : String)
  | optionalString (name : String)
  | level
  | ordered
  | alignments
  /-- A node in a member that may be missing. -/
  | node (name : String) (role : Role)
  /-- Nodes in the array in a member. -/
  | nodes (name : String) (role : Role)
  deriving Repr

/-- The member that a clause reads. -/
def Clause.name? : Clause → Option String
  | .problem _ => none
  | .string name => some name
  | .optionalString name => some name
  | .level => some "level"
  | .ordered => some "ordered"
  | .alignments => some "alignments"
  | .node name _ => some name
  | .nodes name _ => some name

/-- The report on the items of an array in a member, the first of which has the given index. -/
def Role.itemsViolations (role : Role) (name : String) (index : Nat) :
    List Json → List Violation
  | [] => []
  | v :: rest =>
    (role.violations v).map (under [.member name, .item index]) ++
      role.itemsViolations name (index + 1) rest

/-- What a clause reports on a node. -/
def Clause.report : Clause → Json → List Violation
  | .problem p, _ => [here p]
  | .string name, v => stringViolations v name
  | .optionalString name, v => optionalStringViolations v name
  | .level, v => levelViolations v
  | .ordered, v => orderedViolations v
  | .alignments, v => alignmentsViolations v
  | .node name role, v =>
    match v.get? name with
    | none => []
    | some w => (role.violations w).map (under [.member name])
  | .nodes name role, v =>
    match v.get? name with
    | some (.array items) => role.itemsViolations name 0 items
    | some other => [here (.notArray name other.kind)]
    | none => [here (.missing name)]

section

variable (v : Json) (name : String) (problem : Problem)

@[simp] theorem report_problem : (Clause.problem problem).report v = [here problem] := rfl

@[simp] theorem report_string : (Clause.string name).report v = stringViolations v name := rfl

@[simp] theorem report_optionalString :
    (Clause.optionalString name).report v = optionalStringViolations v name := rfl

@[simp] theorem report_level : Clause.level.report v = levelViolations v := rfl

@[simp] theorem report_ordered : Clause.ordered.report v = orderedViolations v := rfl

@[simp] theorem report_alignments : Clause.alignments.report v = alignmentsViolations v := rfl

end

/-- A kind that a node must have, and what is checked of a node that has it. -/
def clausesIf (expected kind : String) (clauses : List Clause) : List Clause :=
  if kind = expected then clauses else [.problem (.otherKind expected kind)]

/-- What is checked of a block of a kind. -/
def blockClauses (kind : String) : List Clause :=
  match kind with
  | "Paragraph" => [.nodes "inlines" .inline]
  | "Heading" => [.level, .nodes "inlines" .inline]
  | "List" => [.ordered, .nodes "items" .item]
  | "Blockquote" => [.nodes "blocks" .block]
  | "CodeBlock" => [.string "text", .optionalString "language"]
  | "HorizontalRule" => []
  | "Table" => [.node "headerRow" .headerRow, .nodes "rows" .row, .alignments]
  | "ListItem" | "TableRow" | "TableCell" | "Document" => [.problem (.notInSequence kind)]
  | _ => [.problem (.unknownBlock kind)]

/-- What is checked of an inline of a kind. -/
def inlineClauses (kind : String) : List Clause :=
  match kind with
  | "Text" | "CodeSpan" => [.string "text"]
  | "Strong" | "Emphasis" | "Underline" => [.nodes "inlines" .inline]
  | "Link" => [.string "href", .nodes "inlines" .inline]
  | "Image" => [.string "src", .optionalString "alt"]
  | "LineBreak" => []
  | _ => [.problem (.unknownInline kind)]

/-- What is checked of a node of a kind in a role. -/
def Role.clauses (role : Role) (kind : String) : List Clause :=
  match role with
  | .document =>
    (if kind = "Document" then [] else [.problem (.otherKind "Document" kind)]) ++
      [.nodes "blocks" .block]
  | .block => blockClauses kind
  | .inline => inlineClauses kind
  | .item => clausesIf "ListItem" kind [.nodes "blocks" .block]
  | .row | .headerRow => clausesIf "TableRow" kind [.nodes "cells" .cell]
  | .cell => clausesIf "TableCell" kind [.nodes "blocks" .block]

/-! ### Reports by clauses -/

variable {role role' : Role} {c : Clause} {v w x : Json} {kind name : String}
  {path front : List Step} {y : Violation}

/-- A report that goes through items one by one. -/
theorem eq_itemsViolations (role : Role) (name : String)
    {report : Nat → List Json → List Violation}
    (hnil : ∀ index, report index [] = [])
    (hcons : ∀ index v rest, report index (v :: rest) =
      (role.violations v).map (under [.member name, .item index]) ++ report (index + 1) rest)
    (index : Nat) (items : List Json) :
    report index items = role.itemsViolations name index items := by
  induction items generalizing index with
  | nil => rw [hnil, Role.itemsViolations]
  | cons v rest ih => rw [hcons, Role.itemsViolations, ih]

theorem inlinesViolations_eq (v : Json) :
    inlinesViolations v = (Clause.nodes "inlines" .inline).report v := by
  have hitems : ∀ index items, inlineItemsViolations index items =
      Role.inline.itemsViolations "inlines" index items :=
    eq_itemsViolations .inline "inlines" (fun _ => by rw [inlineItemsViolations])
      (fun _ _ _ => by rw [inlineItemsViolations, Role.violations])
  rw [inlinesViolations, Clause.report]
  split <;> simp only [*]

theorem blocksViolations_eq (v : Json) :
    blocksViolations v = (Clause.nodes "blocks" .block).report v := by
  have hitems : ∀ index items, blockItemsViolations index items =
      Role.block.itemsViolations "blocks" index items :=
    eq_itemsViolations .block "blocks" (fun _ => by rw [blockItemsViolations])
      (fun _ _ _ => by rw [blockItemsViolations, Role.violations])
  rw [blocksViolations, Clause.report]
  split <;> simp only [*]

theorem containersViolations_eq (role : Role) (v : Json) (name : String)
    (h : ∀ w, containerViolations kind w = role.violations w) :
    containersViolations v name kind = (Clause.nodes name role).report v := by
  have hitems : ∀ index items, containerItemsViolations name kind index items =
      role.itemsViolations name index items :=
    eq_itemsViolations role name (fun _ => by rw [containerItemsViolations])
      (fun _ _ _ => by rw [containerItemsViolations, h])
  rw [containersViolations, Clause.report]
  split <;> simp only [*]

theorem rowsViolations_eq (v : Json) : rowsViolations v = (Clause.nodes "rows" .row).report v := by
  have hitems : ∀ index items, rowItemsViolations index items =
      Role.row.itemsViolations "rows" index items :=
    eq_itemsViolations .row "rows" (fun _ => by rw [rowItemsViolations])
      (fun _ _ _ => by rw [rowItemsViolations, Role.violations])
  rw [rowsViolations, Clause.report]
  split <;> simp only [*]

theorem headerRowViolations_of_ne (h : v ≠ .null) : headerRowViolations v = rowViolations v := by
  cases v with
  | null => exact absurd rfl h
  | _ => rfl

theorem headerViolations_eq (v : Json) :
    headerViolations v = (Clause.node "headerRow" .headerRow).report v := by
  rw [headerViolations, Clause.report]
  split
  · next h => rw [h]
  · next h => rw [h]; rfl
  · next row hnull h =>
    simp only [h, Role.violations, headerRowViolations_of_ne hnull]

theorem inlineViolations_of_kind (h : kindOrProblem v = .ok kind) :
    inlineViolations v = (inlineClauses kind).flatMap fun c => c.report v := by
  unfold inlineClauses
  split
  all_goals rw [inlineViolations, h, inlinesViolations_eq]
  case h_9 h₁ h₂ h₃ h₄ h₅ h₆ h₇ h₈ =>
    simp only [if_neg h₁, if_neg h₂, if_neg h₃, if_neg h₄, if_neg h₅, if_neg h₆, if_neg h₇,
      if_neg h₈]
    rfl
  all_goals simp

theorem blockViolations_of_kind (h : kindOrProblem v = .ok kind) :
    blockViolations v = (blockClauses kind).flatMap fun c => c.report v := by
  have hitems : v.containersViolations "items" "ListItem" = (Clause.nodes "items" .item).report v :=
    containersViolations_eq .item v "items" fun w => by rw [Role.violations]
  unfold blockClauses
  split
  all_goals rw [blockViolations, h, inlinesViolations_eq, blocksViolations_eq,
    headerViolations_eq, rowsViolations_eq, hitems]
  case h_12 h₁ h₂ h₃ h₄ h₅ h₆ h₇ h₈ h₉ h₁₀ h₁₁ =>
    have hparts : ["ListItem", "TableRow", "TableCell", "Document"].contains kind = false := by
      simp [imp_false.mp h₈, imp_false.mp h₉, imp_false.mp h₁₀, imp_false.mp h₁₁]
    simp only [if_neg h₁, if_neg h₂, if_neg h₃, if_neg h₄, if_neg h₅, if_neg h₆, if_neg h₇,
      hparts]
    rfl
  all_goals simp

theorem containerViolations_of_kind (h : kindOrProblem v = .ok kind) (expected : String) :
    containerViolations expected v =
      (clausesIf expected kind [.nodes "blocks" .block]).flatMap fun c => c.report v := by
  rw [containerViolations, h, clausesIf, blocksViolations_eq]
  split_ifs <;> simp [Clause.report, *]

theorem rowViolations_of_kind (h : kindOrProblem v = .ok kind) :
    rowViolations v =
      (clausesIf "TableRow" kind [.nodes "cells" .cell]).flatMap fun c => c.report v := by
  have hcells := containersViolations_eq .cell v "cells" fun w => by rw [Role.violations]
  rw [rowViolations, h, clausesIf, hcells]
  split_ifs <;> simp [Clause.report, *]

/-- **A node is checked clause by clause.** -/
theorem violations_of_kind (role : Role) (h : kindOrProblem v = .ok kind) :
    role.violations v = (role.clauses kind).flatMap fun c => c.report v := by
  cases role with
  | document =>
    rw [Role.violations, documentViolations, h, Role.clauses, blocksViolations_eq,
      List.flatMap_append]
    by_cases hkind : kind = "Document" <;> simp [Clause.report, hkind]
  | block => exact blockViolations_of_kind h
  | inline => exact inlineViolations_of_kind h
  | item => exact containerViolations_of_kind h "ListItem"
  | row => exact rowViolations_of_kind h
  | headerRow =>
    have hv : v ≠ .null := by
      rintro rfl
      cases h
    rw [Role.violations, headerRowViolations_of_ne hv]
    exact rowViolations_of_kind h
  | cell => exact containerViolations_of_kind h "TableCell"

/-- Nothing is reported on the parts of a value that is no node. -/
theorem path_eq_nil_of_problem {problem : Problem} (role : Role)
    (h : kindOrProblem v = .error problem) (hy : y ∈ role.violations v) : y.path = [] := by
  have hroot : ∀ report : List Violation, report = [here problem] → y ∈ report → y.path = [] := by
    rintro report rfl hy
    rw [List.mem_singleton.mp hy, here]
  cases role with
  | document => exact hroot _ (by rw [Role.violations, documentViolations, h]) hy
  | block => exact hroot _ (by rw [Role.violations, blockViolations, h]) hy
  | inline => exact hroot _ (by rw [Role.violations, inlineViolations, h]) hy
  | item => exact hroot _ (by rw [Role.violations, containerViolations, h]) hy
  | row => exact hroot _ (by rw [Role.violations, rowViolations, h]) hy
  | headerRow =>
    rw [Role.violations] at hy
    by_cases hv : v = .null
    · rw [hv, headerRowViolations] at hy
      cases hy
    · rw [headerRowViolations_of_ne hv] at hy
      exact hroot _ (by rw [rowViolations, h]) hy
  | cell => exact hroot _ (by rw [Role.violations, containerViolations, h]) hy

/-! ### Where a clause reports -/

/-- A clause reads nothing but its member. -/
theorem report_congr (h : ∀ name, c.name? = some name → v.get? name = w.get? name) :
    c.report v = c.report w := by
  cases c with
  | problem p => rfl
  | string name => simp only [Clause.report, stringViolations, h name rfl]
  | optionalString name => simp only [Clause.report, optionalStringViolations, h name rfl]
  | level => simp only [Clause.report, levelViolations, h "level" rfl]
  | ordered => simp only [Clause.report, orderedViolations, h "ordered" rfl]
  | alignments => simp only [Clause.report, alignmentsViolations, h "alignments" rfl]
  | node name role => simp only [Clause.report, h name rfl]
  | nodes name role => simp only [Clause.report, h name rfl]

/-- The members that are read of nodes besides their kind, each role and kind a sublist. -/
def readNames : List String :=
  ["text", "language", "src", "alt", "href", "level", "inlines", "ordered", "items", "blocks",
    "headerRow", "rows", "alignments", "cells"]

theorem names_clausesIf_sublist (expected : String) {clauses : List Clause}
    (h : clauses.filterMap Clause.name? <+ readNames) :
    (clausesIf expected kind clauses).filterMap Clause.name? <+ readNames := by
  rw [clausesIf]
  split_ifs
  · exact h
  · exact List.nil_sublist _

theorem names_blockClauses_sublist (kind : String) :
    (blockClauses kind).filterMap Clause.name? <+ readNames := by
  unfold blockClauses
  split
  case h_12 => exact List.nil_sublist _
  all_goals decide

theorem names_inlineClauses_sublist (kind : String) :
    (inlineClauses kind).filterMap Clause.name? <+ readNames := by
  unfold inlineClauses
  split
  case h_9 => exact List.nil_sublist _
  all_goals decide

theorem names_clauses_sublist (role : Role) (kind : String) :
    (role.clauses kind).filterMap Clause.name? <+ readNames := by
  cases role with
  | document =>
    have hblocks : [Clause.nodes "blocks" .block].filterMap Clause.name? <+ readNames := by decide
    rw [Role.clauses, List.filterMap_append]
    split_ifs
    · exact hblocks
    · exact hblocks
  | block => exact names_blockClauses_sublist kind
  | inline => exact names_inlineClauses_sublist kind
  | row | headerRow | item | cell => exact names_clausesIf_sublist _ (by decide)

/-- No two clauses read the same member. -/
theorem nodup_names_clauses (role : Role) (kind : String) :
    ((role.clauses kind).filterMap Clause.name?).Nodup :=
  (names_clauses_sublist role kind).nodup (by decide)

theorem mem_readNames (hc : c ∈ role.clauses kind) (hname : c.name? = some name) :
    name ∈ readNames :=
  (names_clauses_sublist role kind).subset (List.mem_filterMap.mpr ⟨c, hc, hname⟩)

theorem mem_itemsViolations {items : List Json} {index : Nat}
    (hy : y ∈ role.itemsViolations name index items) :
    ∃ k w, items[k]? = some w ∧
      ∃ z ∈ role.violations w, y = z.under [.member name, .item (index + k)] := by
  induction items generalizing index with
  | nil => cases hy
  | cons v rest ih =>
    rw [Role.itemsViolations, List.mem_append] at hy
    rcases hy with hy | hy
    · obtain ⟨z, hz, rfl⟩ := List.mem_map.mp hy
      exact ⟨0, v, rfl, z, hz, rfl⟩
    · obtain ⟨k, w, hw, z, hz, rfl⟩ := ih hy
      refine ⟨k + 1, w, hw, z, hz, ?_⟩
      rw [Nat.add_right_comm, Nat.add_assoc]

theorem itemsViolations_append (role : Role) (name : String) (index : Nat)
    (front items : List Json) :
    role.itemsViolations name index (front ++ items) =
      role.itemsViolations name index front ++
        role.itemsViolations name (index + front.length) items := by
  induction front generalizing index with
  | nil => rfl
  | cons v rest ih =>
    rw [List.cons_append, Role.itemsViolations, Role.itemsViolations, ih, List.append_assoc,
      List.length_cons, Nat.add_right_comm, Nat.add_assoc]

end Interdoc.Json

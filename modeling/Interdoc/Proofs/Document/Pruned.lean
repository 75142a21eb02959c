import Interdoc.Document.Encoding
import Interdoc.Proofs.Json.Members

/-!
# What a document says

A JSON value may hold more than the document that it describes: members that no node of the kind
has, and optional members that are `null`.  `Json.prune` leaves them out at every node.

Objects are compared by their canonical form.  `canonical_node_eq_prune` shows that a written node
and an object agree as soon as they agree in every member that a node of the kind can have
(`SaysSame`).
-/

namespace Interdoc.Json

/-! ### Leaving out what says nothing -/

/-- The members that a node of the kind can have beside its kind. -/
def memberNames (kind : String) : List String :=
  match kind with
  | "Document" | "Blockquote" | "ListItem" | "TableCell" => ["blocks"]
  | "Paragraph" | "Strong" | "Emphasis" | "Underline" => ["inlines"]
  | "Heading" => ["level", "inlines"]
  | "List" => ["ordered", "items"]
  | "CodeBlock" => ["text", "language"]
  | "Table" => ["headerRow", "rows", "alignments"]
  | "TableRow" => ["cells"]
  | "Text" | "CodeSpan" => ["text"]
  | "Link" => ["href", "inlines"]
  | "Image" => ["src", "alt"]
  | _ => []

/-- The members that a node can go without. -/
def optionalNames : List String := ["language", "headerRow", "alignments", "alt"]

/-- Whether a value is `null`. -/
def isNull : Json → Bool
  | .null => true
  | _ => false

/-- Whether a member of a node of the kind says something. -/
def isKept (kind name : String) (v : Json) : Bool :=
  name == "type" ||
    ((memberNames kind).contains name && !(optionalNames.contains name && v.isNull))

mutual

/-- The value without the members that say nothing, at every node. -/
def prune : Json → Json
  | .array items => .array (pruneItems items)
  | .object members => .object (pruneMembers ((nodeKind? (.object members)).getD "") members)
  | .null => .null
  | .bool b => .bool b
  | .integer n => .integer n
  | .real x => .real x
  | .string s => .string s

/-- `prune` on each item. -/
def pruneItems : List Json → List Json
  | [] => []
  | v :: rest => prune v :: pruneItems rest

/-- The members of a node of the kind that say something. -/
def pruneMembers (kind : String) : List (String × Json) → List (String × Json)
  | [] => []
  | (name, v) :: rest =>
    if isKept kind name v then (name, prune v) :: pruneMembers kind rest
    else pruneMembers kind rest

end

example : prune (.object [("type", .string "Image"), ("alt", .null), ("src", .string "a"),
    ("id", .integer 1)]) = .object [("type", .string "Image"), ("src", .string "a")] := by rfl

/-! ### Kinds -/

theorem memberNames_nodup (kind : String) : ("type" :: memberNames kind).Nodup := by
  unfold memberNames
  split <;> decide

/-! ### Look-ups after pruning -/

theorem names_pruneMembers_sublist (kind : String) (members : List (String × Json)) :
    (names (pruneMembers kind members)).Sublist (names members) := by
  induction members with
  | nil => exact .refl _
  | cons p rest ih =>
    obtain ⟨n, v⟩ := p
    rw [pruneMembers]
    split
    · exact ih.cons_cons n
    · exact ih.cons n

theorem member?_pruneMembers {kind name : String} {members : List (String × Json)}
    (h : (names members).Nodup) : member? name (pruneMembers kind members)
      = ((member? name members).filter (isKept kind name)).map prune := by
  induction members with
  | nil => rfl
  | cons p rest ih =>
    obtain ⟨n, v⟩ := p
    rw [names, List.map_cons, List.nodup_cons, ← names] at h
    rw [pruneMembers, member?_cons]
    by_cases hn : n = name
    · subst hn
      rw [if_pos rfl]
      split
      · next hk => rw [member?_head, Option.filter_some, if_pos hk, Option.map_some]
      · next hk =>
        -- the member is left out, and no other one has its name
        have hnone : member? n rest = none := member?_eq_none_iff.mpr h.1
        rw [ih h.2, hnone, Option.filter_some, if_neg hk]
        rfl
    · rw [if_neg hn]
      split
      · rw [member?_cons, if_neg hn, ih h.2]
      · exact ih h.2

/-! ### Nodes and pruned objects -/

/-- Fields say of a name what the members of a node of the kind say of it. -/
def SaysSame (kind : String) (members fields : List (String × Json)) (name : String) : Prop :=
  (member? name fields).map canonical
    = ((member? name members).filter (isKept kind name)).map fun v => v.prune.canonical

theorem isKept_of_ne_null {kind name : String} {v : Json} (hn : name ∈ memberNames kind)
    (hv : v.isNull = false) : isKept kind name v = true := by
  rw [isKept, hv, Bool.and_false, Bool.not_false, Bool.and_true, List.contains_eq_mem,
    decide_eq_true hn, Bool.or_true]

theorem saysSame_some {kind name : String} {members fields : List (String × Json)} {v w : Json}
    (hn : name ∈ memberNames kind) (hv : v.isNull = false) (hm : member? name members = some v)
    (hf : member? name fields = some w) (h : w.canonical = v.prune.canonical) :
    SaysSame kind members fields name := by
  rw [SaysSame, hm, hf, Option.filter_some, if_pos (isKept_of_ne_null hn hv), Option.map_some,
    Option.map_some, h]

/-- A member that is missing or `null` counts as missing. -/
theorem saysSame_none {kind name : String} {members fields : List (String × Json)}
    (hn : name ∈ optionalNames) (hm : member? name members = none ∨
      member? name members = some .null) (hf : member? name fields = none) :
    SaysSame kind members fields name := by
  have hkept : isKept kind name .null = false := by
    have htype : name ≠ "type" := by
      rintro rfl
      exact absurd hn (by decide)
    have hc : optionalNames.contains name = true := List.contains_iff_mem.mpr hn
    rw [isKept, beq_eq_false_iff_ne.mpr htype, hc, isNull]
    simp
  rw [SaysSame, hf]
  rcases hm with hm | hm
  · rw [hm]
    rfl
  · rw [hm, Option.filter_some, if_neg (by rw [hkept]; decide)]
    rfl

/-- **A node that says the same as an object** in every member of its kind has the canonical form of
the pruned object. -/
theorem canonical_node_eq_prune {kind : String} {members fields : List (String × Json)}
    (hd : (names members).Nodup) (hk : member? "type" members = some (.string kind))
    (hf : (names fields).Sublist (memberNames kind))
    (h : ∀ name ∈ memberNames kind, SaysSame kind members fields name) :
    (node kind fields).canonical = (prune (.object members)).canonical := by
  have hkind : nodeKind? (.object members) = some kind := by rw [nodeKind?, hk]
  rw [prune, hkind, Option.getD_some, node]
  -- both objects name each member once, so it is enough to compare member by member
  apply canonical_object_congr
  · exact (memberNames_nodup kind).sublist (hf.cons_cons "type")
  · exact hd.sublist (names_pruneMembers_sublist kind members)
  · intro name
    rw [member?_pruneMembers hd, Option.map_map]
    by_cases htype : name = "type"
    · subst htype
      rw [member?_head, hk]
      rfl
    rw [member?_cons, if_neg (Ne.symm htype)]
    by_cases hn : name ∈ memberNames kind
    · exact h name hn
    · -- nothing else is written, and nothing else is kept
      have hnone : member? name fields = none :=
        member?_eq_none_iff.mpr fun hmem => hn (hf.subset hmem)
      have hkept : ∀ v, isKept kind name v = false := by
        intro v
        rw [isKept, beq_eq_false_iff_ne.mpr htype, List.contains_eq_mem, decide_eq_false hn]
        rfl
      rw [hnone]
      cases member? name members with
      | none => rfl
      | some v =>
        rw [Option.filter_some, if_neg (by rw [hkept]; decide)]
        rfl

end Interdoc.Json

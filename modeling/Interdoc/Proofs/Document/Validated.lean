import Interdoc.Document.Checked
import Interdoc.Document.Validation
import Interdoc.Proofs.Document.Encoded
import Interdoc.Proofs.Document.Pruned
import Mathlib.Tactic.SplitIfs

/-!
# Values without violations

A JSON value in which nothing is a violation describes a document
(`exists_document_of_no_violations`), and what is written of the document is the value without the
members that say nothing (`Json.prune`).  Checking and reading are two descriptions of one format,
so the induction goes through both at once, with one lemma for each list of children.

Hence `Document.check?` takes a value exactly if nothing in it is a violation
(`check?_takes_exactly_valid_values`).

An object can have two members of one name, of which only the first is read.  Then it is no JSON
value, and nothing is said about what is written of it.
-/

namespace Interdoc.Json

/-! ### Parts of nodes -/

/-- A value with a kind is an object. -/
theorem exists_object_of_kind {v : Json} {kind : String} (h : kindOrProblem v = .ok kind) :
    ∃ members, v = .object members ∧ member? "type" members = some (.string kind) := by
  unfold kindOrProblem at h
  split at h
  · next members =>
    refine ⟨members, rfl, ?_⟩
    split at h
    · next hs => rw [hs, Except.ok.inj h]
    · cases h
    · cases h
  · cases h

theorem exists_string {v : Json} {name : String} (h : stringViolations v name = []) :
    ∃ s, v.get? name = some (.string s) := by
  unfold stringViolations at h
  split at h
  · next s hs => exact ⟨s, hs⟩
  · cases h
  · cases h

theorem exists_optionalString {v : Json} {name : String}
    (h : optionalStringViolations v name = []) :
    (v.get? name = none ∨ v.get? name = some .null) ∨ ∃ s, v.get? name = some (.string s) := by
  unfold optionalStringViolations at h
  split at h
  · next hv => exact .inl (.inl hv)
  · next hv => exact .inl (.inr hv)
  · next s hv => exact .inr ⟨s, hv⟩
  · cases h

theorem exists_level {v : Json} (h : levelViolations v = []) :
    ∃ level : Nat, v.get? "level" = some (.integer level) ∧ 1 ≤ level ∧ level ≤ 6 := by
  unfold levelViolations at h
  split at h
  · next n hn =>
    split_ifs at h with h₀ h₁
    · simp only [Bool.and_eq_true, decide_eq_true_eq] at h₁
      obtain ⟨level, rfl⟩ := Int.eq_ofNat_of_zero_le (Int.not_lt.mp h₀)
      exact ⟨level, hn, by omega⟩
  · cases h

theorem exists_ordered {v : Json} (h : orderedViolations v = []) :
    ∃ ordered, v.get? "ordered" = some (.bool ordered) := by
  unfold orderedViolations at h
  split at h
  · next b hb => exact ⟨b, hb⟩
  · cases h

theorem exists_alignment {v : Json} (h : alignmentViolations v = []) :
    ∃ a : Alignment, v = .string a.name := by
  unfold alignmentViolations at h
  split at h
  · next s =>
    split_ifs at h with hs
    obtain ⟨a, ha⟩ := Option.isSome_iff_exists.mp hs
    refine ⟨a, ?_⟩
    unfold Alignment.ofName? at ha
    split_ifs at ha with h₁ h₂ h₃
    all_goals
      cases ha
      simpa [Alignment.name]
  · cases h

theorem exists_alignmentList (index : Nat) : ∀ {items : List Json},
    ((items.zipIdx index).map fun (a, k) =>
      (alignmentViolations a).map (Violation.under [.member "alignments", .item k])).flatten = [] →
    ∃ as : List Alignment, items = as.map fun a => .string a.name
  | [], _ => ⟨[], rfl⟩
  | v :: rest, h => by
    rw [List.zipIdx_cons, List.map_cons, List.flatten_cons, List.append_eq_nil_iff,
      List.map_eq_nil_iff] at h
    obtain ⟨a, rfl⟩ := exists_alignment h.1
    obtain ⟨as, rfl⟩ := exists_alignmentList (index + 1) h.2
    exact ⟨a :: as, rfl⟩

theorem exists_alignments {v : Json} (h : alignmentsViolations v = []) :
    (v.get? "alignments" = none ∨ v.get? "alignments" = some .null) ∨
      ∃ as : List Alignment,
        v.get? "alignments" = some (.array (as.map fun a => .string a.name)) := by
  unfold alignmentsViolations at h
  split at h
  · next hv => exact .inl (.inl hv)
  · next hv => exact .inl (.inr hv)
  · next items hv =>
    obtain ⟨as, rfl⟩ := exists_alignmentList 0 h
    exact .inr ⟨as, hv⟩
  · cases h

section

variable {kind name : String} {members fields : List (String × Json)}

/-- A list that says the same item by item. -/
theorem saysSame_items {items written : List Json}
    (h : ItemsHaveDistinctNames items → canonicalItems written = canonicalItems (pruneItems items))
    (hd : (object members).HasDistinctNames) (hn : name ∈ memberNames kind)
    (hm : member? name members = some (.array items))
    (hf : member? name fields = some (.array written)) : SaysSame kind members fields name := by
  refine saysSame_some hn rfl hm hf ?_
  rw [prune]
  exact canonical_array_congr (h (hd.items hm))

theorem names_nodup_of_hasDistinctNames (hd : (object members).HasDistinctNames) :
    (names members).Nodup := by
  rw [HasDistinctNames] at hd
  exact hd.1

theorem nodeKind?_of_member? (h : member? "type" members = some (.string kind)) :
    nodeKind? (.object members) = some kind := by
  rw [nodeKind?, h]

/-- A part is read from the member with its name, wherever it would stand in an array. -/
theorem part?_object (position : Nat) :
    part? (.object members) name position = member? name members := rfl

end

/-- A string that may be missing, read and compared. -/
theorem exists_optionalString_saysSame (kind : String) {name : String}
    {members : List (String × Json)} (hn : name ∈ memberNames kind) (ho : name ∈ optionalNames)
    (fields : Option String → List (String × Json))
    (hf : ∀ s, member? name (fields s) = s.map .string)
    (h : optionalStringViolations (.object members) name = []) :
    ∃ s, optionalString? (member? name members) = some s ∧
      SaysSame kind members (fields s) name := by
  rcases exists_optionalString h with hm | ⟨s, hm⟩
  · refine ⟨none, ?_, saysSame_none ho hm (hf none)⟩
    rcases hm with hm | hm
    all_goals
      rw [get?] at hm
      rw [hm]
      rfl
  · rw [get?] at hm
    exact ⟨some s, by rw [hm]; rfl, saysSame_some hn rfl hm (hf (some s)) rfl⟩

/-- Members that are written only if they are there stand where they belong. -/
theorem names_optional_sublist (name : String) (v : Option Json) :
    (names (optional name v)).Sublist [name] := by
  cases v with
  | none => exact .cons _ .slnil
  | some v => exact .refl _

/-! ### Inlines -/

theorem ofJsonPart?_object {members : List (String × Json)} {position : Nat} {items : List Json}
    (h : member? "inlines" members = some (.array items)) :
    Inline.ofJsonPart? (.object members) position = Inline.ofJsonList? items := by
  rw [← part?_object position] at h
  rw [Inline.ofJsonPart?]
  split <;> grind

/-- Items that are inlines, and what is written of them. -/
def ItemsAreInlines (items : List Json) (xs : List Inline) : Prop :=
  Inline.ofJsonList? items = some xs ∧ (ItemsHaveDistinctNames items →
    canonicalItems (Inline.toJsonList xs) = canonicalItems (pruneItems items))

section

variable {kind : String} {members : List (String × Json)}

/-- A value that describes an inline, and what is written of it. -/
def IsInline (v : Json) (i : Inline) : Prop :=
  Inline.ofJson? v = some i ∧ (v.HasDistinctNames → i.toJson.canonical = v.prune.canonical)

/-- An inline that is one string. -/
theorem exists_leaf (ht : member? "type" members = some (.string kind))
    (hnames : memberNames kind = ["text"]) (leaf : String → Inline)
    (hw : ∀ s, (leaf s).toJson = node kind [("text", .string s)])
    (hr : Inline.ofJson? (.object members)
      = (string? (member? "text" members)).bind fun s => some (leaf s))
    (h : stringViolations (.object members) "text" = []) :
    ∃ i, IsInline (.object members) i := by
  obtain ⟨s, hs⟩ := exists_string h
  rw [get?] at hs
  refine ⟨leaf s, by rw [hr, hs]; rfl, fun hd => ?_⟩
  rw [hw]
  apply canonical_node_eq_prune (names_nodup_of_hasDistinctNames hd) ht
    (by rw [hnames]; exact .refl _)
  rw [hnames, List.forall_mem_singleton]
  exact saysSame_some (by rw [hnames]; decide) rfl hs rfl rfl

/-- An inline that is a sequence of inlines. -/
theorem exists_nested (ht : member? "type" members = some (.string kind))
    (hnames : memberNames kind = ["inlines"]) (nested : List Inline → Inline)
    (hw : ∀ xs, (nested xs).toJson = node kind [("inlines", .array (Inline.toJsonList xs))])
    (hr : Inline.ofJson? (.object members)
      = (Inline.ofJsonPart? (.object members) 1).bind fun xs => some (nested xs))
    (h : ∃ items xs, get? "inlines" (.object members) = some (.array items) ∧
      ItemsAreInlines items xs) :
    ∃ i, IsInline (.object members) i := by
  obtain ⟨items, xs, hm, hx⟩ := h
  rw [get?] at hm
  refine ⟨nested xs, by rw [hr, ofJsonPart?_object hm, hx.1]; rfl, fun hd => ?_⟩
  rw [hw]
  apply canonical_node_eq_prune (names_nodup_of_hasDistinctNames hd) ht
    (by rw [hnames]; exact .refl _)
  rw [hnames, List.forall_mem_singleton]
  exact saysSame_items hx.2 hd (by rw [hnames]; decide) hm rfl

theorem exists_link (ht : member? "type" members = some (.string "Link"))
    (hs : stringViolations (.object members) "href" = [])
    (h : ∃ items xs, get? "inlines" (.object members) = some (.array items) ∧
      ItemsAreInlines items xs) :
    ∃ i, IsInline (.object members) i := by
  obtain ⟨s, hs⟩ := exists_string hs
  obtain ⟨items, xs, hm, hx⟩ := h
  rw [get?] at hs hm
  refine ⟨.link s xs, ?_, fun hd => ?_⟩
  · rw [Inline.ofJson?, nodeKind?_of_member? ht]
    simp [holdsParts, part?_object, string?, hs, ofJsonPart?_object hm, hx.1]
  · rw [Inline.toJson]
    apply canonical_node_eq_prune (names_nodup_of_hasDistinctNames hd) ht (.refl _)
    rw [memberNames, List.forall_mem_cons, List.forall_mem_singleton]
    exact ⟨saysSame_some (by decide) rfl hs rfl rfl, saysSame_items hx.2 hd (by decide) hm rfl⟩

theorem exists_image (ht : member? "type" members = some (.string "Image"))
    (hs : stringViolations (.object members) "src" = [])
    (ha : optionalStringViolations (.object members) "alt" = []) :
    ∃ i, IsInline (.object members) i := by
  obtain ⟨s, hs⟩ := exists_string hs
  rw [get?] at hs
  obtain ⟨alt, halt, hsame⟩ := exists_optionalString_saysSame "Image" (by decide) (by decide)
    (fun alt => ("src", .string s) :: optional "alt" (alt.map .string))
    (fun alt => by rw [member?_cons, if_neg (by decide), member?_optional]) ha
  refine ⟨.image s alt, ?_, fun hd => ?_⟩
  · rw [Inline.ofJson?, nodeKind?_of_member? ht]
    simp [holdsParts, part?_object, string?, hs, halt]
  · rw [Inline.toJson]
    apply canonical_node_eq_prune (names_nodup_of_hasDistinctNames hd) ht
    · exact (names_optional_sublist "alt" _).cons_cons "src"
    · rw [memberNames, List.forall_mem_cons, List.forall_mem_singleton]
      exact ⟨saysSame_some (by decide) rfl hs rfl rfl, hsame⟩

end

/-- One node: an inline without violations is read, once its inlines are. -/
theorem exists_inline_of_inlines {v : Json} (h : inlineViolations v = [])
    (ih : inlinesViolations v = [] →
      ∃ items xs, v.get? "inlines" = some (.array items) ∧ ItemsAreInlines items xs) :
    ∃ i, IsInline v i := by
  rw [inlineViolations] at h
  split at h
  · cases h
  next kind hk =>
  obtain ⟨members, rfl, ht⟩ := exists_object_of_kind hk
  have hkind := nodeKind?_of_member? ht
  -- the kinds in the order in which they are looked for
  split_ifs at h with h₁ h₂ h₃ h₄ h₅ h₆ h₇ h₈
  · subst h₁
    refine exists_leaf ht rfl .text (fun s => rfl) ?_ h
    rw [Inline.ofJson?, hkind]
    simp [holdsParts, part?_object]
  · subst h₂
    refine exists_leaf ht rfl .code (fun s => rfl) ?_ h
    rw [Inline.ofJson?, hkind]
    simp [holdsParts, part?_object]
  · subst h₃
    refine exists_nested ht rfl .strong (fun s => rfl) ?_ (ih h)
    rw [Inline.ofJson?, hkind]
    simp [holdsParts]
  · subst h₄
    refine exists_nested ht rfl .emphasis (fun s => rfl) ?_ (ih h)
    rw [Inline.ofJson?, hkind]
    simp [holdsParts]
  · subst h₅
    refine exists_nested ht rfl .underline (fun s => rfl) ?_ (ih h)
    rw [Inline.ofJson?, hkind]
    simp [holdsParts]
  · subst h₆
    rw [List.append_eq_nil_iff] at h
    exact exists_link ht h.1 (ih h.2)
  · subst h₇
    rw [List.append_eq_nil_iff] at h
    exact exists_image ht h.1 h.2
  · subst h₈
    refine ⟨.lineBreak, ?_, fun hd => ?_⟩
    · rw [Inline.ofJson?, hkind]
      simp [holdsParts]
    · exact canonical_node_eq_prune (names_nodup_of_hasDistinctNames hd) ht (.refl _)
        (by rintro _ ⟨⟩)

mutual

theorem exists_inline (v : Json) (h : inlineViolations v = []) : ∃ i, IsInline v i :=
  exists_inline_of_inlines h (exists_inlines v)
termination_by (sizeOf v, 1)

theorem exists_inlines (v : Json) (h : inlinesViolations v = []) :
    ∃ items xs, v.get? "inlines" = some (.array items) ∧ ItemsAreInlines items xs := by
  rw [inlinesViolations] at h
  split at h
  · next items hv =>
    obtain ⟨xs, hx⟩ := exists_inlineItems 0 items h
    exact ⟨items, xs, hv, hx⟩
  · cases h
  · cases h
termination_by (sizeOf v, 0)
decreasing_by
  have := sizeOf_get? (by assumption)
  simp at this
  exact Prod.Lex.left _ _ (by omega)

theorem exists_inlineItems (index : Nat) : ∀ items : List Json,
    inlineItemsViolations index items = [] → ∃ xs, ItemsAreInlines items xs
  | [], _ => ⟨[], by rw [Inline.ofJsonList?], fun _ => rfl⟩
  | v :: rest, h => by
    rw [inlineItemsViolations, List.append_eq_nil_iff, List.map_eq_nil_iff] at h
    obtain ⟨i, hi, hci⟩ := exists_inline v h.1
    obtain ⟨xs, hx, hcx⟩ := exists_inlineItems (index + 1) rest h.2
    refine ⟨i :: xs, by rw [Inline.ofJsonList?, hi, hx]; rfl, fun hd => ?_⟩
    rw [ItemsHaveDistinctNames] at hd
    rw [Inline.toJsonList, pruneItems, canonicalItems, canonicalItems, hci hd.1, hcx hd.2]
termination_by items => (sizeOf items, 0)

end

/-! ### Blocks -/

/-- A value that describes a block, and what is written of it. -/
structure IsBlock (v : Json) (b : Block) : Prop where
  read : Block.ofJson? v = some b
  levels : b.LevelsInRange
  same : v.HasDistinctNames → b.toJson.canonical = v.prune.canonical

/-- Items that are blocks, and what is written of them. -/
structure ItemsAreBlocks (items : List Json) (blocks : List Block) : Prop where
  read : Block.ofJsonList? items = some blocks
  levels : Block.LevelsInRangeList blocks
  same : ItemsHaveDistinctNames items →
    canonicalItems (Block.toJsonList blocks) = canonicalItems (pruneItems items)

/-- Items that are list items or cells, and what is written of them. -/
structure ItemsAreContainers (kind : String) (items : List Json) (xs : List (List Block)) :
    Prop where
  read : Block.ofJsonItems? items = some xs
  levels : Block.LevelsInRangeItems xs
  same : ItemsHaveDistinctNames items →
    canonicalItems (Block.toJsonItems kind xs) = canonicalItems (pruneItems items)

/-- Items that are rows, and what is written of them. -/
structure ItemsAreRows (items : List Json) (rows : List (List (List Block))) : Prop where
  read : Block.ofJsonRows? items = some rows
  levels : Block.LevelsInRangeRows rows
  same : ItemsHaveDistinctNames items →
    canonicalItems (Block.toJsonRows rows) = canonicalItems (pruneItems items)

/-- The member of a node holds blocks. -/
def HoldsBlocks (v : Json) : Prop :=
  ∃ items blocks, v.get? "blocks" = some (.array items) ∧ ItemsAreBlocks items blocks

/-- A member of a node holds list items or cells. -/
def HoldsContainers (v : Json) (name kind : String) : Prop :=
  ∃ items xs, v.get? name = some (.array items) ∧ ItemsAreContainers kind items xs

/-- The member of a table holds rows. -/
def HoldsRows (v : Json) : Prop :=
  ∃ items rows, v.get? "rows" = some (.array items) ∧ ItemsAreRows items rows

section

variable {members : List (String × Json)} {items : List Json}

theorem blocksOfPart?_object {position : Nat}
    (h : member? "blocks" members = some (.array items)) :
    Block.blocksOfPart? (.object members) position = Block.ofJsonList? items := by
  rw [← part?_object position] at h
  rw [Block.blocksOfPart?]
  split <;> grind

theorem itemsOfPart?_object {name : String} {position : Nat}
    (h : member? name members = some (.array items)) :
    Block.itemsOfPart? (.object members) name position = Block.ofJsonItems? items := by
  rw [← part?_object position] at h
  rw [Block.itemsOfPart?]
  split <;> grind

theorem rowsOfPart?_object (h : member? "rows" members = some (.array items)) :
    Block.rowsOfPart? (.object members) = Block.ofJsonRows? items := by
  rw [← part?_object 2] at h
  rw [Block.rowsOfPart?]
  split <;> grind

theorem exists_paragraph (ht : member? "type" members = some (.string "Paragraph"))
    (h : inlinesViolations (.object members) = []) : ∃ b, IsBlock (.object members) b := by
  obtain ⟨items, xs, hm, hx⟩ := exists_inlines _ h
  rw [get?] at hm
  refine ⟨.paragraph xs, ?_, trivial, fun hd => ?_⟩
  · rw [Block.ofJson?, nodeKind?_of_member? ht, ofJsonPart?_object hm, hx.1]
    simp [holdsParts]
  · rw [Block.toJson]
    apply canonical_node_eq_prune (names_nodup_of_hasDistinctNames hd) ht (.refl _)
    rw [memberNames, List.forall_mem_singleton]
    exact saysSame_items hx.2 hd (by decide) hm rfl

theorem exists_heading (ht : member? "type" members = some (.string "Heading"))
    (hl : levelViolations (.object members) = [])
    (h : inlinesViolations (.object members) = []) : ∃ b, IsBlock (.object members) b := by
  obtain ⟨level, hm', hrange⟩ := exists_level hl
  obtain ⟨items, xs, hm, hx⟩ := exists_inlines _ h
  rw [get?] at hm hm'
  refine ⟨.heading level xs, ?_, hrange, fun hd => ?_⟩
  · rw [Block.ofJson?, nodeKind?_of_member? ht]
    simp [holdsParts, part?_object, hm', Block.octet?_level hrange, ofJsonPart?_object hm, hx.1]
  · rw [Block.toJson]
    apply canonical_node_eq_prune (names_nodup_of_hasDistinctNames hd) ht (.refl _)
    rw [memberNames, List.forall_mem_cons, List.forall_mem_singleton]
    exact ⟨saysSame_some (by decide) rfl hm' rfl rfl, saysSame_items hx.2 hd (by decide) hm rfl⟩

theorem exists_list (ht : member? "type" members = some (.string "List"))
    (ho : orderedViolations (.object members) = [])
    (h : HoldsContainers (.object members) "items" "ListItem") :
    ∃ b, IsBlock (.object members) b := by
  obtain ⟨ordered, hm'⟩ := exists_ordered ho
  obtain ⟨items, xs, hm, hx⟩ := h
  rw [get?] at hm hm'
  refine ⟨.list ordered xs, ?_, hx.levels, fun hd => ?_⟩
  · rw [Block.ofJson?, nodeKind?_of_member? ht]
    simp [holdsParts, part?_object, hm', bool?, itemsOfPart?_object hm, hx.read]
  · rw [Block.toJson]
    apply canonical_node_eq_prune (names_nodup_of_hasDistinctNames hd) ht (.refl _)
    rw [memberNames, List.forall_mem_cons, List.forall_mem_singleton]
    exact ⟨saysSame_some (by decide) rfl hm' rfl rfl, saysSame_items hx.same hd (by decide) hm rfl⟩

theorem exists_quote (ht : member? "type" members = some (.string "Blockquote"))
    (h : HoldsBlocks (.object members)) : ∃ b, IsBlock (.object members) b := by
  obtain ⟨items, blocks, hm, hx⟩ := h
  rw [get?] at hm
  refine ⟨.quote blocks, ?_, hx.levels, fun hd => ?_⟩
  · rw [Block.ofJson?, nodeKind?_of_member? ht, blocksOfPart?_object hm, hx.read]
    simp [holdsParts]
  · rw [Block.toJson]
    apply canonical_node_eq_prune (names_nodup_of_hasDistinctNames hd) ht (.refl _)
    rw [memberNames, List.forall_mem_singleton]
    exact saysSame_items hx.same hd (by decide) hm rfl

theorem exists_code (ht : member? "type" members = some (.string "CodeBlock"))
    (hs : stringViolations (.object members) "text" = [])
    (hl : optionalStringViolations (.object members) "language" = []) :
    ∃ b, IsBlock (.object members) b := by
  obtain ⟨s, hs⟩ := exists_string hs
  rw [get?] at hs
  obtain ⟨language, hlang, hsame⟩ := exists_optionalString_saysSame "CodeBlock" (by decide)
    (by decide) (fun l => ("text", .string s) :: optional "language" (l.map .string))
    (fun l => by rw [member?_cons, if_neg (by decide), member?_optional]) hl
  refine ⟨.code s language, ?_, trivial, fun hd => ?_⟩
  · rw [Block.ofJson?, nodeKind?_of_member? ht]
    simp [holdsParts, part?_object, string?, hs, hlang]
  · rw [Block.toJson]
    apply canonical_node_eq_prune (names_nodup_of_hasDistinctNames hd) ht
    · exact (names_optional_sublist "language" _).cons_cons "text"
    · rw [memberNames, List.forall_mem_cons, List.forall_mem_singleton]
      exact ⟨saysSame_some (by decide) rfl hs rfl rfl, hsame⟩

end

/-! ### Containers and rows -/

/-- A value of a kind that holds blocks, and what is written of it. -/
structure IsContainer (kind : String) (v : Json) (blocks : List Block) : Prop where
  holdsParts : v.holdsParts 1 = true
  read : Block.blocksOfPart? v 0 = some blocks
  levels : Block.LevelsInRangeList blocks
  same : v.HasDistinctNames →
    (node kind [("blocks", .array (Block.toJsonList blocks))]).canonical = v.prune.canonical

theorem exists_container_of_blocks {kind : String} {v : Json} (hk : kindOrProblem v = .ok kind)
    (hnames : memberNames kind = ["blocks"]) (h : HoldsBlocks v) :
    ∃ blocks, IsContainer kind v blocks := by
  obtain ⟨members, rfl, ht⟩ := exists_object_of_kind hk
  obtain ⟨items, blocks, hm, hx⟩ := h
  rw [get?] at hm
  refine ⟨blocks, rfl, by rw [blocksOfPart?_object hm, hx.read], hx.levels, fun hd => ?_⟩
  apply canonical_node_eq_prune (names_nodup_of_hasDistinctNames hd) ht
    (by rw [hnames]; exact .refl _)
  rw [hnames, List.forall_mem_singleton]
  exact saysSame_items hx.same hd (by rw [hnames]; decide) hm rfl

/-- A row of cells as it is written. -/
def writtenRow (cells : List (List Block)) : Json :=
  node "TableRow" [("cells", .array (Block.toJsonItems "TableCell" cells))]

/-- A value that is a row, and what is written of it. -/
structure IsRow (v : Json) (cells : List (List Block)) : Prop where
  holdsParts : v.holdsParts 1 = true
  read : Block.itemsOfPart? v "cells" 0 = some cells
  levels : Block.LevelsInRangeItems cells
  same : v.HasDistinctNames → (writtenRow cells).canonical = v.prune.canonical

theorem exists_row_of_cells {v : Json} (h : rowViolations v = [])
    (ih : containersViolations v "cells" "TableCell" = [] →
      HoldsContainers v "cells" "TableCell") : ∃ cells, IsRow v cells := by
  rw [rowViolations] at h
  split at h
  · cases h
  next kind hk =>
  obtain ⟨members, rfl, ht⟩ := exists_object_of_kind hk
  split_ifs at h with hkind
  subst hkind
  obtain ⟨items, cells, hm, hx⟩ := ih h
  rw [get?] at hm
  refine ⟨cells, rfl, by rw [itemsOfPart?_object hm, hx.read], hx.levels, fun hd => ?_⟩
  apply canonical_node_eq_prune (names_nodup_of_hasDistinctNames hd) ht (.refl _)
  rw [memberNames, List.forall_mem_singleton]
  exact saysSame_items hx.same hd (by decide) hm rfl

/-! ### Tables -/

/-- The member of a table is a header row, if it is there. -/
structure HasHeader (v : Json) (header : Option (List (List Block))) : Prop where
  read : Block.headerOfPart? v = some header
  levels : ∀ cells ∈ header, Block.LevelsInRangeItems cells
  same : v.HasDistinctNames → ∀ members fields, v = .object members →
    member? "headerRow" fields = header.map writtenRow →
      SaysSame "Table" members fields "headerRow"

theorem headerOfPart?_object_none {members : List (String × Json)}
    (h : member? "headerRow" members = none ∨ member? "headerRow" members = some .null) :
    Block.headerOfPart? (.object members) = some none := by
  rw [← part?_object 1] at h
  rw [Block.headerOfPart?]
  split <;> grind

theorem headerOfPart?_object_some {members : List (String × Json)} {row : Json}
    (h : member? "headerRow" members = some row) (hnull : row ≠ .null)
    (hrow : row.holdsParts 1 = true) :
    Block.headerOfPart? (.object members) = (Block.itemsOfPart? row "cells" 0).map some := by
  rw [← part?_object 1] at h
  rw [Block.headerOfPart?]
  split <;> grind

theorem exists_header_of_row {v : Json} (h : headerViolations v = [])
    (hv : ∃ members, v = .object members)
    (ih : ∀ row, v.get? "headerRow" = some row → rowViolations row = [] →
      ∃ cells, IsRow row cells) : ∃ header, HasHeader v header := by
  obtain ⟨members, rfl⟩ := hv
  rw [headerViolations] at h
  -- an absent header and one that is `null` read alike
  have hnone : (member? "headerRow" members = none ∨
      member? "headerRow" members = some .null) → HasHeader (.object members) none := by
    intro hm
    refine ⟨headerOfPart?_object_none hm, by simp, fun _ ms fields he hf => ?_⟩
    cases he
    exact saysSame_none (by decide) hm hf
  split at h
  · next hm => exact ⟨none, hnone (.inl hm)⟩
  · next hm => exact ⟨none, hnone (.inr hm)⟩
  · next row hnull hm =>
    rw [List.map_eq_nil_iff] at h
    obtain ⟨cells, hc⟩ := ih row hm h
    rw [get?] at hm
    refine ⟨some cells, ?_, ?_, fun hd ms fields he hf => ?_⟩
    · rw [headerOfPart?_object_some hm hnull hc.holdsParts, hc.read]
      rfl
    · rintro _ ⟨⟩
      exact hc.levels
    · cases he
      have hr : row.isNull = false := by cases row <;> simp [isNull] at hnull ⊢
      exact saysSame_some (by decide) hr hm hf (hc.same (hd.get? hm))

/-- There is nothing to leave out of a string. -/
theorem pruneItems_names (as : List Alignment) :
    pruneItems (as.map fun a => .string a.name) = as.map fun a => .string a.name := by
  induction as with
  | nil => rfl
  | cons a as ih => rw [List.map_cons, pruneItems, prune, ih]

theorem exists_alignments_saysSame {members : List (String × Json)}
    (h : alignmentsViolations (.object members) = []) :
    ∃ alignments, alignments? (member? "alignments" members) = some alignments ∧
      ∀ fields, member? "alignments" fields
          = alignments.map (fun as => .array (as.map fun a => .string a.name)) →
        SaysSame "Table" members fields "alignments" := by
  rcases exists_alignments h with hm | ⟨as, hm⟩
  · refine ⟨none, ?_, fun fields hf => saysSame_none (by decide) hm hf⟩
    rcases hm with hm | hm
    all_goals
      rw [get?] at hm
      rw [hm]
      rfl
  · rw [get?] at hm
    refine ⟨some as, ?_, fun fields hf => saysSame_some (by decide) rfl hm hf ?_⟩
    · rw [hm, alignments?, mapM_alignment?_name]
      rfl
    · rw [prune, pruneItems_names]

/-- The members of a table, its kind aside. -/
def tableFields (header : Option (List (List Block))) (rows : List (List (List Block)))
    (alignments : Option (List Alignment)) : List (String × Json) :=
  optional "headerRow" (header.map writtenRow) ++
    ("rows", .array (Block.toJsonRows rows)) :: Block.alignmentsMember alignments

theorem toJson_table (header : Option (List (List Block))) (rows : List (List (List Block)))
    (alignments : Option (List Alignment)) : (Block.table header rows alignments).toJson
      = node "Table" (tableFields header rows alignments) := by
  cases header <;> rfl

theorem exists_table {members : List (String × Json)}
    (ht : member? "type" members = some (.string "Table"))
    (hh : ∃ header, HasHeader (.object members) header) (hr : HoldsRows (.object members))
    (ha : alignmentsViolations (.object members) = []) : ∃ b, IsBlock (.object members) b := by
  obtain ⟨header, hh⟩ := hh
  obtain ⟨items, rows, hm, hx⟩ := hr
  obtain ⟨alignments, has, hsame⟩ := exists_alignments_saysSame ha
  rw [get?] at hm
  refine ⟨.table header rows alignments, ?_, ?_, fun hd => ?_⟩
  · rw [Block.ofJson?, nodeKind?_of_member? ht, hh.read, rowsOfPart?_object hm, hx.read]
    simp [Json.holdsParts, part?_object, has]
  · cases header with
    | none => exact hx.levels
    | some cells => exact ⟨hh.levels cells rfl, hx.levels⟩
  · rw [toJson_table]
    -- each optional member is there if and only if it was there and not `null`
    apply canonical_node_eq_prune (names_nodup_of_hasDistinctNames hd) ht
    · rw [tableFields, names, List.map_append, ← names]
      exact (names_optional_sublist "headerRow" _).append
        ((names_optional_sublist "alignments" _).cons_cons "rows")
    · rw [memberNames, List.forall_mem_cons, List.forall_mem_cons, List.forall_mem_singleton]
      refine ⟨hh.same hd _ _ rfl ?_, saysSame_items hx.same hd (by decide) hm ?_, hsame _ ?_⟩
      all_goals
        cases header <;> cases alignments <;>
          simp [tableFields, optional, member?, Block.alignmentsMember]

/-! ### Whole values -/

/-- One node: a block without violations is read, once its parts are. -/
theorem exists_block_of_parts {v : Json} (h : blockViolations v = [])
    (hb : blocksViolations v = [] → HoldsBlocks v)
    (hi : containersViolations v "items" "ListItem" = [] → HoldsContainers v "items" "ListItem")
    (hh : (∃ members, v = .object members) → headerViolations v = [] →
      ∃ header, HasHeader v header)
    (hr : rowsViolations v = [] → HoldsRows v) : ∃ b, IsBlock v b := by
  rw [blockViolations] at h
  split at h
  · cases h
  next kind hk =>
  obtain ⟨members, rfl, ht⟩ := exists_object_of_kind hk
  -- the kinds in the order in which they are looked for
  split_ifs at h with h₁ h₂ h₃ h₄ h₅ h₆ h₇ h₈
  · subst h₁
    exact exists_paragraph ht h
  · subst h₂
    rw [List.append_eq_nil_iff] at h
    exact exists_heading ht h.1 h.2
  · subst h₃
    rw [List.append_eq_nil_iff] at h
    exact exists_list ht h.1 (hi h.2)
  · subst h₄
    exact exists_quote ht (hb h)
  · subst h₅
    rw [List.append_eq_nil_iff] at h
    exact exists_code ht h.1 h.2
  · subst h₆
    refine ⟨.rule, ?_, trivial, fun hd => ?_⟩
    · rw [Block.ofJson?, nodeKind?_of_member? ht]
      simp [Json.holdsParts]
    · exact canonical_node_eq_prune (names_nodup_of_hasDistinctNames hd) ht (.refl _)
        (by rintro _ ⟨⟩)
  · subst h₇
    rw [List.append_eq_nil_iff, List.append_eq_nil_iff] at h
    exact exists_table ht (hh ⟨members, rfl⟩ h.1.1) (hr h.1.2) h.2

mutual

theorem exists_block (v : Json) (h : blockViolations v = []) : ∃ b, IsBlock v b :=
  exists_block_of_parts h (exists_blocks v) (exists_containers v "items" "ListItem" rfl)
    (exists_header v) (exists_rows v)
termination_by (sizeOf v, 2)

theorem exists_blocks (v : Json) (h : blocksViolations v = []) : HoldsBlocks v := by
  rw [blocksViolations] at h
  split at h
  · next items hv =>
    obtain ⟨blocks, hx⟩ := exists_blockItems 0 items h
    exact ⟨items, blocks, hv, hx⟩
  · cases h
  · cases h
termination_by (sizeOf v, 0)
decreasing_by
  have := sizeOf_get? (by assumption)
  simp at this
  exact Prod.Lex.left _ _ (by omega)

theorem exists_blockItems (index : Nat) : ∀ items : List Json,
    blockItemsViolations index items = [] → ∃ blocks, ItemsAreBlocks items blocks
  | [], _ => ⟨[], by rw [Block.ofJsonList?], trivial, fun _ => rfl⟩
  | v :: rest, h => by
    rw [blockItemsViolations, List.append_eq_nil_iff, List.map_eq_nil_iff] at h
    obtain ⟨b, hb⟩ := exists_block v h.1
    obtain ⟨blocks, hx⟩ := exists_blockItems (index + 1) rest h.2
    refine ⟨b :: blocks, by rw [Block.ofJsonList?, hb.read, hx.read]; rfl,
      ⟨hb.levels, hx.levels⟩, fun hd => ?_⟩
    rw [ItemsHaveDistinctNames] at hd
    rw [Block.toJsonList, pruneItems, canonicalItems, canonicalItems, hb.same hd.1,
      hx.same hd.2]
termination_by items => (sizeOf items, 0)

theorem exists_containers (v : Json) (name kind : String) (hnames : memberNames kind = ["blocks"])
    (h : containersViolations v name kind = []) : HoldsContainers v name kind := by
  rw [containersViolations] at h
  split at h
  · next items hv =>
    obtain ⟨xs, hx⟩ := exists_containerItems name kind hnames 0 items h
    exact ⟨items, xs, hv, hx⟩
  · cases h
  · cases h
termination_by (sizeOf v, 0)
decreasing_by
  have := sizeOf_get? (by assumption)
  simp at this
  exact Prod.Lex.left _ _ (by omega)

theorem exists_containerItems (name kind : String) (hnames : memberNames kind = ["blocks"])
    (index : Nat) : ∀ items : List Json, containerItemsViolations name kind index items = [] →
      ∃ xs, ItemsAreContainers kind items xs
  | [], _ => ⟨[], by rw [Block.ofJsonItems?], trivial, fun _ => rfl⟩
  | v :: rest, h => by
    rw [containerItemsViolations, List.append_eq_nil_iff, List.map_eq_nil_iff] at h
    obtain ⟨blocks, hb⟩ := exists_container v kind hnames h.1
    obtain ⟨xs, hx⟩ := exists_containerItems name kind hnames (index + 1) rest h.2
    refine ⟨blocks :: xs, ?_, ⟨hb.levels, hx.levels⟩, fun hd => ?_⟩
    · rw [Block.ofJsonItems?, if_pos hb.holdsParts, hb.read, hx.read]
      rfl
    · rw [ItemsHaveDistinctNames] at hd
      rw [Block.toJsonItems, pruneItems, canonicalItems, canonicalItems, hb.same hd.1,
        hx.same hd.2]
termination_by items => (sizeOf items, 0)

theorem exists_container (v : Json) (kind : String) (hnames : memberNames kind = ["blocks"])
    (h : containerViolations kind v = []) : ∃ blocks, IsContainer kind v blocks := by
  rw [containerViolations] at h
  split at h
  · cases h
  next found hk =>
  split_ifs at h with hf
  subst hf
  exact exists_container_of_blocks hk hnames (exists_blocks v h)
termination_by (sizeOf v, 1)

theorem exists_row (v : Json) (h : rowViolations v = []) : ∃ cells, IsRow v cells :=
  exists_row_of_cells h (exists_containers v "cells" "TableCell" rfl)
termination_by (sizeOf v, 1)

theorem exists_header (v : Json) (hv : ∃ members, v = .object members)
    (h : headerViolations v = []) : ∃ header, HasHeader v header :=
  exists_header_of_row h hv fun row _hrow => exists_row row
termination_by (sizeOf v, 0)
decreasing_by exact Prod.Lex.left _ _ (sizeOf_get? _hrow)

theorem exists_rows (v : Json) (h : rowsViolations v = []) : HoldsRows v := by
  rw [rowsViolations] at h
  split at h
  · next items hv =>
    obtain ⟨rows, hx⟩ := exists_rowItems 0 items h
    exact ⟨items, rows, hv, hx⟩
  · cases h
  · cases h
termination_by (sizeOf v, 0)
decreasing_by
  have := sizeOf_get? (by assumption)
  simp at this
  exact Prod.Lex.left _ _ (by omega)

theorem exists_rowItems (index : Nat) : ∀ items : List Json,
    rowItemsViolations index items = [] → ∃ rows, ItemsAreRows items rows
  | [], _ => ⟨[], by rw [Block.ofJsonRows?], trivial, fun _ => rfl⟩
  | v :: rest, h => by
    rw [rowItemsViolations, List.append_eq_nil_iff, List.map_eq_nil_iff] at h
    obtain ⟨cells, hc⟩ := exists_row v h.1
    obtain ⟨rows, hx⟩ := exists_rowItems (index + 1) rest h.2
    refine ⟨cells :: rows, ?_, ⟨hc.levels, hx.levels⟩, fun hd => ?_⟩
    · rw [Block.ofJsonRows?, if_pos hc.holdsParts, hc.read, hx.read]
      rfl
    · rw [ItemsHaveDistinctNames] at hd
      rw [Block.toJsonRows, pruneItems, canonicalItems, canonicalItems, ← writtenRow,
        hc.same hd.1, hx.same hd.2]
termination_by items => (sizeOf items, 0)

end

/-- **A value without violations describes a document**, and what is written of the document is the
value without the members that say nothing. -/
theorem exists_document_of_no_violations {v : Json} (h : v.documentViolations = []) :
    ∃ d, Document.ofJson? v = some d ∧ d.LevelsInRange ∧
      (v.HasDistinctNames → d.toJson.canonical = v.prune.canonical) := by
  rw [documentViolations] at h
  split at h
  · cases h
  next kind hk =>
  rw [List.append_eq_nil_iff] at h
  split_ifs at h with hkind
  · subst hkind
    obtain ⟨blocks, hb⟩ := exists_container_of_blocks hk rfl (exists_blocks v h.2)
    refine ⟨⟨blocks⟩, ?_, hb.levels, hb.same⟩
    rw [Document.ofJson?, if_pos hb.holdsParts, hb.read]
    rfl
  · exact h.1.elim

end Interdoc.Json

/-! ### The boundary to JSON

`Document.check?` takes a JSON value exactly if nothing in it is a violation.  So the case that a
value has no violations and still cannot be read never arises, and a document that comes in is all
that the value says.  In the other direction every document goes out as a value that comes back as
the document.
-/

namespace Interdoc.Document

/-- A value without violations is taken. -/
theorem check?_eq_of_no_violations {v : Json} (h : v.documentViolations = []) :
    ∃ d, check? v = .ok d ∧ d.LevelsInRange ∧
      (v.HasDistinctNames → d.toJson.canonical = v.prune.canonical) := by
  obtain ⟨d, hd, hl, hs⟩ := Json.exists_document_of_no_violations h
  refine ⟨d, ?_, hl, hs⟩
  rw [check?, h]
  simp only [hd]

/-- A value with violations is refused, and all of them are named. -/
theorem check?_eq_of_violations {v : Json} (h : v.documentViolations ≠ []) :
    check? v = .error (.invalidDocument v.documentViolations) := by
  unfold check?
  split
  · next hv => exact absurd hv h
  · rfl

/-- A document that was written is taken back. -/
theorem check?_toJson {d : Document} (h : d.LevelsInRange) : check? d.toJson = .ok d := by
  rw [check?, documentViolations_toJson h]
  simp only [ofJson?_toJson h]

/-- **The boundary to JSON.**  A value is taken exactly if it has no violations, and every error
carries exactly the violations, so a value that passes the check is always read.  A document that is
taken has all its levels in range, and it is written as the value without unknown members and
without optional members that are `null`; members are compared by name, and the names in an object
are distinct.  In the other direction, every document with its levels in range is taken back. -/
theorem check?_takes_exactly_valid_values :
    (∀ v : Json, ((∃ d, check? v = .ok d) ↔ v.documentViolations = []) ∧
      (∀ e, check? v = .error e → e = .invalidDocument v.documentViolations) ∧
      ∀ d, check? v = .ok d → d.LevelsInRange ∧
        (v.HasDistinctNames → d.toJson.canonical = v.prune.canonical)) ∧
    ∀ d : Document, d.LevelsInRange → check? d.toJson = .ok d := by
  refine ⟨fun v => ?_, fun d => check?_toJson⟩
  by_cases h : v.documentViolations = []
  · obtain ⟨d, hd, hl, hs⟩ := check?_eq_of_no_violations h
    refine ⟨⟨fun _ => h, fun _ => ⟨d, hd⟩⟩, fun e he => ?_, fun d' hd' => ?_⟩
    · rw [hd] at he
      cases he
    · rw [hd] at hd'
      cases hd'
      exact ⟨hl, hs⟩
  · have hv := check?_eq_of_violations h
    refine ⟨⟨fun ⟨d, hd⟩ => ?_, fun h' => absurd h' h⟩, fun e he => ?_, fun d hd => ?_⟩
    · rw [hv] at hd
      cases hd
    · rw [hv] at he
      exact (Except.error.inj he).symm
    · rw [hv] at hd
      cases hd

end Interdoc.Document

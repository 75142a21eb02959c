import Interdoc.Proofs.Document.NormalForm

/-!
# Documents in normal form

`Document.IsNormal` says what a normal document is without the pass that makes it: in all sequences
of inlines no text is empty and no two are neighbours (`Inline.IsNormalList`), and no item and no
cell is empty.  The pass gives such a document, and a document is one exactly when the pass leaves
it alone, so the predicate is decidable.

Whether a part of a document is normal depends on the part alone.  The inductions therefore go
through the tree with one lemma for each level.
-/

namespace Interdoc

namespace Block

/-! ### The normal form -/

mutual

/-- A block in normal form. -/
def IsNormal : Block → Prop
  | .paragraph inlines => Inline.IsNormalList inlines
  | .heading _ inlines => Inline.IsNormalList inlines
  | .list _ items => IsNormalItems items
  | .quote blocks => IsNormalList blocks
  | .code _ _ | .rule => True
  | .table none rows _ => IsNormalRows rows
  | .table (some header) rows _ => IsNormalItems header ∧ IsNormalRows rows

/-- A sequence of blocks in normal form. -/
def IsNormalList : List Block → Prop
  | [] => True
  | b :: rest => IsNormal b ∧ IsNormalList rest

/-- A list of items or cells in normal form: each holds a block. -/
def IsNormalItems : List (List Block) → Prop
  | [] => True
  | blocks :: rest => (blocks ≠ [] ∧ IsNormalList blocks) ∧ IsNormalItems rest

/-- A list of rows in normal form. -/
def IsNormalRows : List (List (List Block)) → Prop
  | [] => True
  | cells :: rest => IsNormalItems cells ∧ IsNormalRows rest

end

theorem emptyParagraph_isNormal : IsNormal emptyParagraph := by
  rw [emptyParagraph, IsNormal, Inline.IsNormalList]
  trivial

theorem isNormalList_iff {blocks : List Block} :
    IsNormalList blocks ↔ ∀ b ∈ blocks, IsNormal b := by
  induction blocks with
  | nil => simp [IsNormalList]
  | cons b blocks ih => rw [IsNormalList, ih, List.forall_mem_cons]

theorem isNormalItems_iff {items : List (List Block)} :
    IsNormalItems items ↔ ∀ blocks ∈ items, blocks ≠ [] ∧ IsNormalList blocks := by
  induction items with
  | nil => simp [IsNormalItems]
  | cons blocks items ih => rw [IsNormalItems, ih, List.forall_mem_cons]

theorem isNormalRows_iff {rows : List (List (List Block))} :
    IsNormalRows rows ↔ ∀ cells ∈ rows, IsNormalItems cells := by
  induction rows with
  | nil => simp [IsNormalRows]
  | cons cells rows ih => rw [IsNormalRows, ih, List.forall_mem_cons]

theorem normalizeList_eq_map (blocks : List Block) :
    normalizeList blocks = blocks.map normalize := by
  induction blocks with
  | nil => rfl
  | cons b blocks ih => rw [normalizeList, ih, List.map_cons]

/-! ### The pass gives the normal form -/

mutual

theorem normalize_isNormal : ∀ b : Block, IsNormal (normalize b)
  | .paragraph xs => by rw [normalize, IsNormal]; exact Inline.normalizeList_isNormal xs
  | .heading level xs => by rw [normalize, IsNormal]; exact Inline.normalizeList_isNormal xs
  | .list ordered items => by rw [normalize, IsNormal]; exact normalizeItems_isNormal items
  | .quote blocks => by rw [normalize, IsNormal]; exact normalizeList_isNormal blocks
  | .code _ _ | .rule => by rw [normalize, IsNormal]; trivial
  | .table none rows alignments => by rw [normalize, IsNormal]; exact normalizeRows_isNormal rows
  | .table (some header) rows alignments => by
    rw [normalize, IsNormal]
    exact ⟨normalizeItems_isNormal header, normalizeRows_isNormal rows⟩

theorem normalizeList_isNormal : ∀ blocks : List Block, IsNormalList (normalizeList blocks)
  | [] => by rw [normalizeList, IsNormalList]; trivial
  | b :: rest => by
    rw [normalizeList, IsNormalList]
    exact ⟨normalize_isNormal b, normalizeList_isNormal rest⟩

theorem normalizeItems_isNormal :
    ∀ items : List (List Block), IsNormalItems (normalizeItems items)
  | [] => by rw [normalizeItems, IsNormalItems]; trivial
  | [] :: rest => by
    -- the pass fills an empty container
    rw [normalizeItems, IsNormalItems, IsNormalList, IsNormalList]
    exact ⟨⟨List.cons_ne_nil _ _, emptyParagraph_isNormal, trivial⟩, normalizeItems_isNormal rest⟩
  | (b :: blocks) :: rest => by
    rw [normalizeItems, IsNormalItems, IsNormalList]
    exact ⟨⟨List.cons_ne_nil _ _, normalize_isNormal b, normalizeList_isNormal blocks⟩,
      normalizeItems_isNormal rest⟩

theorem normalizeRows_isNormal :
    ∀ rows : List (List (List Block)), IsNormalRows (normalizeRows rows)
  | [] => by rw [normalizeRows, IsNormalRows]; trivial
  | cells :: rest => by
    rw [normalizeRows, IsNormalRows]
    exact ⟨normalizeItems_isNormal cells, normalizeRows_isNormal rest⟩

end

/-! ### The pass leaves the normal form alone -/

mutual

theorem normalize_eq_self : ∀ {b : Block}, IsNormal b → normalize b = b
  | .paragraph xs, h => by rw [normalize, Inline.normalizeList_eq_self (by rwa [IsNormal] at h)]
  | .heading level xs, h => by
    rw [normalize, Inline.normalizeList_eq_self (by rwa [IsNormal] at h)]
  | .list ordered items, h => by rw [normalize, normalizeItems_eq_self (by rwa [IsNormal] at h)]
  | .quote blocks, h => by rw [normalize, normalizeList_eq_self (by rwa [IsNormal] at h)]
  | .code _ _, _ | .rule, _ => by rw [normalize]
  | .table none rows alignments, h => by
    rw [normalize, normalizeRows_eq_self (by rwa [IsNormal] at h)]
  | .table (some header) rows alignments, h => by
    rw [IsNormal] at h
    rw [normalize, normalizeItems_eq_self h.1, normalizeRows_eq_self h.2]

theorem normalizeList_eq_self :
    ∀ {blocks : List Block}, IsNormalList blocks → normalizeList blocks = blocks
  | [], _ => by rw [normalizeList]
  | b :: rest, h => by
    rw [IsNormalList] at h
    rw [normalizeList, normalize_eq_self h.1, normalizeList_eq_self h.2]

theorem normalizeItems_eq_self :
    ∀ {items : List (List Block)}, IsNormalItems items → normalizeItems items = items
  | [], _ => by rw [normalizeItems]
  | [] :: rest, h => by
    rw [IsNormalItems] at h
    exact absurd rfl h.1.1
  | (b :: blocks) :: rest, h => by
    rw [IsNormalItems, IsNormalList] at h
    rw [normalizeItems, normalize_eq_self h.1.2.1, normalizeList_eq_self h.1.2.2,
      normalizeItems_eq_self h.2]

theorem normalizeRows_eq_self :
    ∀ {rows : List (List (List Block))}, IsNormalRows rows → normalizeRows rows = rows
  | [], _ => by rw [normalizeRows]
  | cells :: rest, h => by
    rw [IsNormalRows] at h
    rw [normalizeRows, normalizeItems_eq_self h.1, normalizeRows_eq_self h.2]

end

end Block

namespace Document

/-- A document in normal form. -/
def IsNormal (d : Document) : Prop :=
  Block.IsNormalList d.blocks

theorem normalize_isNormal (d : Document) : d.normalize.IsNormal :=
  Block.normalizeList_isNormal d.blocks

theorem normalize_eq_self {d : Document} (h : d.IsNormal) : d.normalize = d := by
  rw [normalize, Block.normalizeList_eq_self h]

theorem isNormal_iff (d : Document) : d.IsNormal ↔ d.normalize = d :=
  ⟨normalize_eq_self, fun h => h ▸ normalize_isNormal d⟩

instance (d : Document) : Decidable d.IsNormal :=
  decidable_of_iff (d.normalize = d) d.isNormal_iff.symm

/-- **The pass gives the normal form and changes nothing else**: what it gives is normal, it leaves
alone exactly the normal documents, and a second pass does nothing. -/
theorem normalize_isNormal_and_fixes_exactly_normal (d : Document) :
    d.normalize.IsNormal ∧ (d.normalize = d ↔ d.IsNormal) ∧ d.normalize.normalize = d.normalize :=
  ⟨d.normalize_isNormal, d.isNormal_iff.symm, normalize_eq_self d.normalize_isNormal⟩

-- empty quotes and ragged rows are normal, empty cells are not
example : IsNormal ⟨[.quote [], .table none [[[.rule]], []] none]⟩ := by decide

example : ¬ IsNormal ⟨[.table none [[[]]] none]⟩ := by decide

end Document

end Interdoc

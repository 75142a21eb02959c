import Interdoc.Proofs.Document.NormalForm

/-!
# What normalization identifies

`Document.Equiv` is the least congruence on documents that knows three rules:

* `Inline.EquivList.merge`: two adjacent texts are one text;
* `Inline.EquivList.drop`: an empty text is nothing;
* `Block.EquivItems.fill`: an empty list item or table cell is one that holds an empty paragraph.

The relation comes as a family, one for each level of the tree, since a rule may be used at any
place in it.  Two documents have the same normal form exactly when they are equivalent.  One half
is that no rule changes the normal form (`normalizeList_eq_of_equivList` on each level); the other
half is that a document is equivalent to its normal form (`Document.equiv_normalize`), because
`Inline.cons` does nothing but use the rules (`Inline.EquivList.cons_step`).
-/

namespace Interdoc

namespace Inline

mutual

/-- The least congruence on inlines with the rules of `EquivList` inside containers. -/
inductive Equiv : Inline → Inline → Prop where
  | refl (i : Inline) : Equiv i i
  | symm {i j : Inline} : Equiv i j → Equiv j i
  | trans {i j k : Inline} : Equiv i j → Equiv j k → Equiv i k
  | strong {xs ys : List Inline} : EquivList xs ys → Equiv (.strong xs) (.strong ys)
  | emphasis {xs ys : List Inline} : EquivList xs ys → Equiv (.emphasis xs) (.emphasis ys)
  | underline {xs ys : List Inline} : EquivList xs ys → Equiv (.underline xs) (.underline ys)
  | link (href : String) {xs ys : List Inline} :
    EquivList xs ys → Equiv (.link href xs) (.link href ys)

/-- The least congruence on sequences of inlines that merges adjacent texts and drops empty
ones. -/
inductive EquivList : List Inline → List Inline → Prop where
  | refl (xs : List Inline) : EquivList xs xs
  | symm {xs ys : List Inline} : EquivList xs ys → EquivList ys xs
  | trans {xs ys zs : List Inline} : EquivList xs ys → EquivList ys zs → EquivList xs zs
  | cons {i j : Inline} {xs ys : List Inline} :
    Equiv i j → EquivList xs ys → EquivList (i :: xs) (j :: ys)
  | merge (s t : String) (rest : List Inline) :
    EquivList (.text s :: .text t :: rest) (.text (s ++ t) :: rest)
  | drop (rest : List Inline) : EquivList (.text "" :: rest) rest

end

/-! ### No rule changes the normal form -/

mutual

theorem normalize_eq_of_equiv : ∀ {i j : Inline}, Equiv i j → normalize i = normalize j
  | _, _, .refl _ => rfl
  | _, _, .symm h => (normalize_eq_of_equiv h).symm
  | _, _, .trans h h' => (normalize_eq_of_equiv h).trans (normalize_eq_of_equiv h')
  | _, _, .strong h => by rw [normalize, normalize, normalizeList_eq_of_equivList h]
  | _, _, .emphasis h => by rw [normalize, normalize, normalizeList_eq_of_equivList h]
  | _, _, .underline h => by rw [normalize, normalize, normalizeList_eq_of_equivList h]
  | _, _, .link href h => by rw [normalize, normalize, normalizeList_eq_of_equivList h]

theorem normalizeList_eq_of_equivList :
    ∀ {xs ys : List Inline}, EquivList xs ys → normalizeList xs = normalizeList ys
  | _, _, .refl _ => rfl
  | _, _, .symm h => (normalizeList_eq_of_equivList h).symm
  | _, _, .trans h h' =>
    (normalizeList_eq_of_equivList h).trans (normalizeList_eq_of_equivList h')
  | _, _, .cons h h' => by
    rw [normalizeList_cons, normalizeList_cons, normalize_eq_of_equiv h,
      normalizeList_eq_of_equivList h']
  | _, _, .merge s t rest => by
    rw [normalizeList_cons, normalizeList_cons, normalizeList_cons, normalize, normalize,
      normalize, cons_text_cons_text]
  | _, _, .drop rest => by rw [normalizeList_cons, normalize, cons_empty]

end

/-! ### A sequence is equivalent to its normal form -/

/-- The step of the pass only uses the rules. -/
theorem EquivList.cons_step (i : Inline) (rest : List Inline) :
    EquivList (i :: rest) (Inline.cons i rest) := by
  cases i with
  | text s =>
    by_cases hs : s = ""
    · rw [hs, cons_empty]
      exact .drop rest
    -- the step merges exactly where the rule does
    rcases head?_isText_or rest with h | ⟨t, tail, rfl⟩
    · rw [cons_text_of_ne hs h]
      exact .refl _
    · rw [cons_text_text hs]
      exact .merge s t tail
  | _ =>
    rw [cons_of_not_isText rfl]
    exact .refl _

mutual

theorem equiv_normalize : ∀ i : Inline, Equiv i (normalize i)
  | .strong xs => by rw [normalize]; exact .strong (equivList_normalizeList xs)
  | .emphasis xs => by rw [normalize]; exact .emphasis (equivList_normalizeList xs)
  | .underline xs => by rw [normalize]; exact .underline (equivList_normalizeList xs)
  | .link href xs => by rw [normalize]; exact .link href (equivList_normalizeList xs)
  | .text _ | .code _ | .lineBreak | .image _ _ => by rw [normalize]; exact .refl _

theorem equivList_normalizeList : ∀ xs : List Inline, EquivList xs (normalizeList xs)
  | [] => .refl []
  | i :: rest => by
    rw [normalizeList_cons]
    exact .trans (.cons (equiv_normalize i) (equivList_normalizeList rest))
      (EquivList.cons_step _ _)

end

theorem EquivList.append_right (zs : List Inline) :
    ∀ {xs ys : List Inline}, EquivList xs ys → EquivList (xs ++ zs) (ys ++ zs)
  | _, _, .refl _ => .refl _
  | _, _, .symm h => .symm (h.append_right zs)
  | _, _, .trans h h' => .trans (h.append_right zs) (h'.append_right zs)
  | _, _, .cons h h' => .cons h (h'.append_right zs)
  | _, _, .merge s t rest => .merge s t (rest ++ zs)
  | _, _, .drop rest => .drop (rest ++ zs)

/-- What stands behind a sequence reads only its normal form. -/
theorem normalizeList_congr_append {xs ys : List Inline} (h : normalizeList xs = normalizeList ys)
    (zs : List Inline) : normalizeList (xs ++ zs) = normalizeList (ys ++ zs) := by
  have hequiv : EquivList xs ys := by
    refine .trans (equivList_normalizeList xs) ?_
    rw [h]
    exact .symm (equivList_normalizeList ys)
  exact normalizeList_eq_of_equivList (hequiv.append_right zs)

end Inline

namespace Block

mutual

/-- The least congruence on blocks with the rules on their parts. -/
inductive Equiv : Block → Block → Prop where
  | refl (b : Block) : Equiv b b
  | symm {b c : Block} : Equiv b c → Equiv c b
  | trans {b c d : Block} : Equiv b c → Equiv c d → Equiv b d
  | paragraph {xs ys : List Inline} :
    Inline.EquivList xs ys → Equiv (.paragraph xs) (.paragraph ys)
  | heading (level : Nat) {xs ys : List Inline} :
    Inline.EquivList xs ys → Equiv (.heading level xs) (.heading level ys)
  | list (ordered : Bool) {xs ys : List (List Block)} :
    EquivItems xs ys → Equiv (.list ordered xs) (.list ordered ys)
  | quote {bs cs : List Block} : EquivList bs cs → Equiv (.quote bs) (.quote cs)
  | headless (alignments : Option (List Alignment)) {rows rows' : List (List (List Block))} :
    EquivRows rows rows' → Equiv (.table none rows alignments) (.table none rows' alignments)
  | headed (alignments : Option (List Alignment)) {header header' : List (List Block)}
    {rows rows' : List (List (List Block))} :
    EquivItems header header' → EquivRows rows rows' →
      Equiv (.table (some header) rows alignments) (.table (some header') rows' alignments)

/-- The least congruence on sequences of blocks. -/
inductive EquivList : List Block → List Block → Prop where
  | refl (bs : List Block) : EquivList bs bs
  | symm {bs cs : List Block} : EquivList bs cs → EquivList cs bs
  | trans {bs cs ds : List Block} : EquivList bs cs → EquivList cs ds → EquivList bs ds
  | cons {b c : Block} {bs cs : List Block} :
    Equiv b c → EquivList bs cs → EquivList (b :: bs) (c :: cs)

/-- The least congruence on lists of items or cells that fills an empty one with an empty
paragraph. -/
inductive EquivItems : List (List Block) → List (List Block) → Prop where
  | refl (xs : List (List Block)) : EquivItems xs xs
  | symm {xs ys : List (List Block)} : EquivItems xs ys → EquivItems ys xs
  | trans {xs ys zs : List (List Block)} :
    EquivItems xs ys → EquivItems ys zs → EquivItems xs zs
  | cons {bs cs : List Block} {xs ys : List (List Block)} :
    EquivList bs cs → EquivItems xs ys → EquivItems (bs :: xs) (cs :: ys)
  | fill (rest : List (List Block)) : EquivItems ([] :: rest) ([emptyParagraph] :: rest)

/-- The least congruence on lists of rows. -/
inductive EquivRows : List (List (List Block)) → List (List (List Block)) → Prop where
  | refl (rows : List (List (List Block))) : EquivRows rows rows
  | symm {rows rows' : List (List (List Block))} : EquivRows rows rows' → EquivRows rows' rows
  | trans {rows rows' rows'' : List (List (List Block))} :
    EquivRows rows rows' → EquivRows rows' rows'' → EquivRows rows rows''
  | cons {cells cells' : List (List Block)} {rows rows' : List (List (List Block))} :
    EquivItems cells cells' → EquivRows rows rows' → EquivRows (cells :: rows) (cells' :: rows')

end

/-! ### No rule changes the normal form -/

mutual

theorem normalize_eq_of_equiv : ∀ {b c : Block}, Equiv b c → normalize b = normalize c
  | _, _, .refl _ => rfl
  | _, _, .symm h => (normalize_eq_of_equiv h).symm
  | _, _, .trans h h' => (normalize_eq_of_equiv h).trans (normalize_eq_of_equiv h')
  | _, _, .paragraph h => by
    rw [normalize, normalize, Inline.normalizeList_eq_of_equivList h]
  | _, _, .heading level h => by
    rw [normalize, normalize, Inline.normalizeList_eq_of_equivList h]
  | _, _, .list ordered h => by rw [normalize, normalize, normalizeItems_eq_of_equivItems h]
  | _, _, .quote h => by rw [normalize, normalize, normalizeList_eq_of_equivList h]
  | _, _, .headless alignments h => by
    rw [normalize, normalize, normalizeRows_eq_of_equivRows h]
  | _, _, .headed alignments h h' => by
    rw [normalize, normalize, normalizeItems_eq_of_equivItems h, normalizeRows_eq_of_equivRows h']

theorem normalizeList_eq_of_equivList :
    ∀ {bs cs : List Block}, EquivList bs cs → normalizeList bs = normalizeList cs
  | _, _, .refl _ => rfl
  | _, _, .symm h => (normalizeList_eq_of_equivList h).symm
  | _, _, .trans h h' =>
    (normalizeList_eq_of_equivList h).trans (normalizeList_eq_of_equivList h')
  | _, _, .cons h h' => by
    rw [normalizeList, normalizeList, normalize_eq_of_equiv h, normalizeList_eq_of_equivList h']

theorem normalizeItems_eq_of_equivItems :
    ∀ {xs ys : List (List Block)}, EquivItems xs ys → normalizeItems xs = normalizeItems ys
  | _, _, .refl _ => rfl
  | _, _, .symm h => (normalizeItems_eq_of_equivItems h).symm
  | _, _, .trans h h' =>
    (normalizeItems_eq_of_equivItems h).trans (normalizeItems_eq_of_equivItems h')
  | _, _, .cons h h' => by
    rw [normalizeItems_cons, normalizeItems_cons, normalizeList_eq_of_equivList h,
      normalizeItems_eq_of_equivItems h']
  | _, _, .fill rest => rfl

theorem normalizeRows_eq_of_equivRows :
    ∀ {rows rows' : List (List (List Block))},
      EquivRows rows rows' → normalizeRows rows = normalizeRows rows'
  | _, _, .refl _ => rfl
  | _, _, .symm h => (normalizeRows_eq_of_equivRows h).symm
  | _, _, .trans h h' =>
    (normalizeRows_eq_of_equivRows h).trans (normalizeRows_eq_of_equivRows h')
  | _, _, .cons h h' => by
    rw [normalizeRows, normalizeRows, normalizeItems_eq_of_equivItems h,
      normalizeRows_eq_of_equivRows h']

end

/-! ### A block is equivalent to its normal form -/

mutual

theorem equiv_normalize : ∀ b : Block, Equiv b (normalize b)
  | .paragraph xs => by
    rw [normalize]; exact .paragraph (Inline.equivList_normalizeList xs)
  | .heading level xs => by
    rw [normalize]; exact .heading level (Inline.equivList_normalizeList xs)
  | .list ordered items => by rw [normalize]; exact .list ordered (equivItems_normalizeItems items)
  | .quote blocks => by rw [normalize]; exact .quote (equivList_normalizeList blocks)
  | .code _ _ | .rule => by rw [normalize]; exact .refl _
  | .table none rows alignments => by
    rw [normalize]; exact .headless alignments (equivRows_normalizeRows rows)
  | .table (some header) rows alignments => by
    rw [normalize]
    exact .headed alignments (equivItems_normalizeItems header) (equivRows_normalizeRows rows)

theorem equivList_normalizeList : ∀ bs : List Block, EquivList bs (normalizeList bs)
  | [] => .refl []
  | b :: rest => by
    rw [normalizeList]
    exact .cons (equiv_normalize b) (equivList_normalizeList rest)

theorem equivItems_normalizeItems : ∀ xs : List (List Block), EquivItems xs (normalizeItems xs)
  | [] => .refl []
  | [] :: rest => by
    rw [normalizeItems]
    exact .trans (.fill rest) (.cons (.refl _) (equivItems_normalizeItems rest))
  | (b :: blocks) :: rest => by
    rw [normalizeItems]
    exact .cons (.cons (equiv_normalize b) (equivList_normalizeList blocks))
      (equivItems_normalizeItems rest)

theorem equivRows_normalizeRows :
    ∀ rows : List (List (List Block)), EquivRows rows (normalizeRows rows)
  | [] => .refl []
  | cells :: rest => by
    rw [normalizeRows]
    exact .cons (equivItems_normalizeItems cells) (equivRows_normalizeRows rest)

end

theorem plainTexts_eq_map (bs : List Block) : plainTexts bs = bs.map plainText := by
  induction bs with
  | nil => rfl
  | cons b bs ih => rw [plainTexts, ih, List.map_cons]

end Block

namespace Document

/-- Documents are equivalent if their blocks are. -/
def Equiv (d e : Document) : Prop :=
  Block.EquivList d.blocks e.blocks

theorem equiv_normalize (d : Document) : d.Equiv d.normalize :=
  Block.equivList_normalizeList d.blocks

theorem normalize_eq_of_equiv {d e : Document} (h : d.Equiv e) : d.normalize = e.normalize := by
  rw [normalize, normalize, Block.normalizeList_eq_of_equivList h]

/-- **Normal forms are unique and complete**: two documents have one normal form exactly when the
three rules make them equivalent.  The text of each top block is that of its normal form. -/
theorem normalize_eq_iff_equiv :
    (∀ d e : Document, d.normalize = e.normalize ↔ d.Equiv e) ∧
      ∀ d : Document, d.normalize.blocks.map Block.plainText = d.blocks.map Block.plainText := by
  constructor
  · intro d e
    constructor
    · -- both are equivalent to their common normal form
      intro h
      have he : e.normalize.Equiv e := .symm (equiv_normalize e)
      rw [← h] at he
      exact .trans (equiv_normalize d) he
    · exact normalize_eq_of_equiv
  · intro d
    rw [normalize, ← Block.plainTexts_eq_map, ← Block.plainTexts_eq_map,
      Block.plainTexts_normalizeList]

end Document

end Interdoc

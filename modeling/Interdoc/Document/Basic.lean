import Interdoc.Text.Blank

/-!
# Documents

A document is a sequence of blocks; blocks hold inlines or other blocks.  Both families are closed
and everything a format cannot say with them is lost on the way in.

List items, table cells and whole documents are all the same thing, a sequence of blocks, so the
tree has only two types: an item list is a `List (List Block)`, a row is the list of its cells, and
the rows of a table are a `List (List (List Block))`.  Functions on the tree come as families of
four, one for each level: `Block`, `List Block`, `List (List Block)` and
`List (List (List Block))`.
-/

namespace Interdoc

/-- The alignment of a table column. -/
inductive Alignment where
  | left | center | right
  deriving DecidableEq, Repr, Inhabited

/-- An element of a line of text.  `strong`, `emphasis`, `underline` and `link` hold further
inlines; the others are leaves. -/
inductive Inline where
  | text (s : String)
  | strong (inlines : List Inline)
  | emphasis (inlines : List Inline)
  | underline (inlines : List Inline)
  /-- Literal text, set as code. -/
  | code (s : String)
  | lineBreak
  | link (href : String) (inlines : List Inline)
  | image (src : String) (alt : Option String)
  deriving Repr, Inhabited

/-- An element of a document. -/
inductive Block where
  | paragraph (inlines : List Inline)
  /-- A heading; the levels `1` to `6` are in use. -/
  | heading (level : Nat) (inlines : List Inline)
  /-- A list, each item a sequence of blocks. -/
  | list (ordered : Bool) (items : List (List Block))
  | quote (blocks : List Block)
  | code (text : String) (language : Option String)
  | rule
  /-- A table, each row a list of cells and each cell a sequence of blocks.  The header row is none
  of the rows, and rows may differ in length. -/
  | table (header : Option (List (List Block))) (rows : List (List (List Block)))
      (alignments : Option (List Alignment))
  deriving Repr, Inhabited

/-- A document. -/
structure Document where
  blocks : List Block
  deriving Repr, Inhabited

namespace Alignment

/-- The name of an alignment. -/
def name : Alignment → String
  | .left => "left"
  | .center => "center"
  | .right => "right"

/-- The alignment with the name. -/
def ofName? (s : String) : Option Alignment :=
  if s = "left" then some .left
  else if s = "center" then some .center
  else if s = "right" then some .right
  else none

theorem ofName?_name (a : Alignment) : ofName? a.name = some a := by
  cases a <;> decide

/-- The alignment that a style value asks for: a name in any case with blanks around it, or one of
the spellings `start`, `centre` and `end`. -/
def ofStyle? (s : List Char) : Option Alignment :=
  let value := String.ofList (Text.toLower (Text.trim s))
  if value = "start" then some .left
  else if value = "centre" then some .center
  else if value = "end" then some .right
  else ofName? value

end Alignment

namespace Inline

/-- The inlines inside a container, `none` for a leaf. -/
def children? : Inline → Option (List Inline)
  | .strong inlines => some inlines
  | .emphasis inlines => some inlines
  | .underline inlines => some inlines
  | .link _ inlines => some inlines
  | _ => none

/-- Whether the inline holds further inlines. -/
def isContainer (i : Inline) : Bool :=
  i.children?.isSome

/-! ### Equality -/

mutual

/-- Equality of inlines, as a decision. -/
def decEq : (a b : Inline) → Decidable (a = b)
  | .text s, b => match b with
    | .text t => decidable_of_iff (s = t) (by simp)
    | .strong _ | .emphasis _ | .underline _ | .code _ | .lineBreak | .link _ _ | .image _ _ =>
      isFalse (by simp)
  | .strong xs, b => match b with
    | .strong ys => match decEqList xs ys with
      | isTrue h => isTrue (by rw [h])
      | isFalse h => isFalse (by simpa using h)
    | .text _ | .emphasis _ | .underline _ | .code _ | .lineBreak | .link _ _ | .image _ _ =>
      isFalse (by simp)
  | .emphasis xs, b => match b with
    | .emphasis ys => match decEqList xs ys with
      | isTrue h => isTrue (by rw [h])
      | isFalse h => isFalse (by simpa using h)
    | .text _ | .strong _ | .underline _ | .code _ | .lineBreak | .link _ _ | .image _ _ =>
      isFalse (by simp)
  | .underline xs, b => match b with
    | .underline ys => match decEqList xs ys with
      | isTrue h => isTrue (by rw [h])
      | isFalse h => isFalse (by simpa using h)
    | .text _ | .strong _ | .emphasis _ | .code _ | .lineBreak | .link _ _ | .image _ _ =>
      isFalse (by simp)
  | .code s, b => match b with
    | .code t => decidable_of_iff (s = t) (by simp)
    | .text _ | .strong _ | .emphasis _ | .underline _ | .lineBreak | .link _ _ | .image _ _ =>
      isFalse (by simp)
  | .lineBreak, b => match b with
    | .lineBreak => isTrue rfl
    | .text _ | .strong _ | .emphasis _ | .underline _ | .code _ | .link _ _ | .image _ _ =>
      isFalse (by simp)
  | .link h xs, b => match b with
    | .link h' ys => match decEqList xs ys with
      | isTrue e => decidable_of_iff (h = h') (by simp [e])
      | isFalse e => isFalse (by simp [e])
    | .text _ | .strong _ | .emphasis _ | .underline _ | .code _ | .lineBreak | .image _ _ =>
      isFalse (by simp)
  | .image s a, b => match b with
    | .image s' a' => decidable_of_iff (s = s' ∧ a = a') (by simp)
    | .text _ | .strong _ | .emphasis _ | .underline _ | .code _ | .lineBreak | .link _ _ =>
      isFalse (by simp)

/-- Equality of sequences of inlines, as a decision. -/
def decEqList : (xs ys : List Inline) → Decidable (xs = ys)
  | [], [] => isTrue rfl
  | [], _ :: _ => isFalse (by simp)
  | _ :: _, [] => isFalse (by simp)
  | x :: xs, y :: ys =>
    match decEq x y, decEqList xs ys with
    | isTrue h, isTrue h' => isTrue (by rw [h, h'])
    | isFalse h, _ => isFalse (by simp [h])
    | _, isFalse h => isFalse (by simp [h])

end

instance : DecidableEq Inline := decEq

end Inline

namespace Block

/-! ### Equality -/

mutual

/-- Equality of blocks, as a decision. -/
def decEq : (a b : Block) → Decidable (a = b)
  | .paragraph xs, b => match b with
    | .paragraph ys => decidable_of_iff (xs = ys) (by simp)
    | .heading _ _ | .list _ _ | .quote _ | .code _ _ | .rule | .table _ _ _ => isFalse (by simp)
  | .heading l xs, b => match b with
    | .heading m ys => decidable_of_iff (l = m ∧ xs = ys) (by simp)
    | .paragraph _ | .list _ _ | .quote _ | .code _ _ | .rule | .table _ _ _ => isFalse (by simp)
  | .list o xs, b => match b with
    | .list p ys => match decEqItems xs ys with
      | isTrue h => decidable_of_iff (o = p) (by simp [h])
      | isFalse h => isFalse (by simp [h])
    | .paragraph _ | .heading _ _ | .quote _ | .code _ _ | .rule | .table _ _ _ =>
      isFalse (by simp)
  | .quote xs, b => match b with
    | .quote ys => match decEqList xs ys with
      | isTrue h => isTrue (by rw [h])
      | isFalse h => isFalse (by simpa using h)
    | .paragraph _ | .heading _ _ | .list _ _ | .code _ _ | .rule | .table _ _ _ =>
      isFalse (by simp)
  | .code s l, b => match b with
    | .code t m => decidable_of_iff (s = t ∧ l = m) (by simp)
    | .paragraph _ | .heading _ _ | .list _ _ | .quote _ | .rule | .table _ _ _ =>
      isFalse (by simp)
  | .rule, b => match b with
    | .rule => isTrue rfl
    | .paragraph _ | .heading _ _ | .list _ _ | .quote _ | .code _ _ | .table _ _ _ =>
      isFalse (by simp)
  | .table h xs as, b => match b with
    | .table g ys bs => match decEqHeader h g, decEqRows xs ys with
      | isTrue e, isTrue e' => decidable_of_iff (as = bs) (by simp [e, e'])
      | isFalse e, _ => isFalse (by simp [e])
      | _, isFalse e => isFalse (by simp [e])
    | .paragraph _ | .heading _ _ | .list _ _ | .quote _ | .code _ _ | .rule => isFalse (by simp)
termination_by structural x => x

/-- Equality of sequences of blocks, as a decision. -/
def decEqList : (xs ys : List Block) → Decidable (xs = ys)
  | [], [] => isTrue rfl
  | [], _ :: _ => isFalse (by simp)
  | _ :: _, [] => isFalse (by simp)
  | x :: xs, y :: ys =>
    match decEq x y, decEqList xs ys with
    | isTrue h, isTrue h' => isTrue (by rw [h, h'])
    | isFalse h, _ => isFalse (by simp [h])
    | _, isFalse h => isFalse (by simp [h])
termination_by structural x => x

/-- Equality of lists of items or cells, as a decision. -/
def decEqItems : (xs ys : List (List Block)) → Decidable (xs = ys)
  | [], [] => isTrue rfl
  | [], _ :: _ => isFalse (by simp)
  | _ :: _, [] => isFalse (by simp)
  | x :: xs, y :: ys =>
    match decEqList x y, decEqItems xs ys with
    | isTrue h, isTrue h' => isTrue (by rw [h, h'])
    | isFalse h, _ => isFalse (by simp [h])
    | _, isFalse h => isFalse (by simp [h])
termination_by structural x => x

/-- Equality of lists of rows, as a decision. -/
def decEqRows : (xs ys : List (List (List Block))) → Decidable (xs = ys)
  | [], [] => isTrue rfl
  | [], _ :: _ => isFalse (by simp)
  | _ :: _, [] => isFalse (by simp)
  | x :: xs, y :: ys =>
    match decEqItems x y, decEqRows xs ys with
    | isTrue h, isTrue h' => isTrue (by rw [h, h'])
    | isFalse h, _ => isFalse (by simp [h])
    | _, isFalse h => isFalse (by simp [h])
termination_by structural x => x

/-- Equality of header rows, as a decision. -/
def decEqHeader : (x y : Option (List (List Block))) → Decidable (x = y)
  | none, none => isTrue rfl
  | none, some _ => isFalse (by simp)
  | some _, none => isFalse (by simp)
  | some x, some y =>
    match decEqItems x y with
    | isTrue h => isTrue (by rw [h])
    | isFalse h => isFalse (by simp [h])
termination_by structural x => x

end

instance : DecidableEq Block := decEq

end Block

deriving instance DecidableEq for Document

end Interdoc

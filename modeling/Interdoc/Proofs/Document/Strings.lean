import Interdoc.Proofs.Document.VisibleText

/-!
# Strings of a document

The strings that a document sets as text or as code, in order; the description of an image is none
of them.  What is visible of these strings, one after the other, is the `writtenText` of inlines and
of blocks.  It is the same for any division of the text into inlines and blocks.
-/

namespace Interdoc

namespace Inline

mutual

/-- The strings that an inline sets as text or as code. -/
def strings : Inline → List String
  | .text s => [s]
  | .code s => [s]
  | .lineBreak => []
  | .image _ _ => []
  | .strong inlines => stringsAmong inlines
  | .emphasis inlines => stringsAmong inlines
  | .underline inlines => stringsAmong inlines
  | .link _ inlines => stringsAmong inlines

/-- The strings in a sequence of inlines. -/
def stringsAmong : List Inline → List String
  | [] => []
  | i :: rest => strings i ++ stringsAmong rest

end

/-- The visible characters of the strings in inlines. -/
def writtenText (inlines : List Inline) : List Char :=
  (stringsAmong inlines).flatMap Text.visible

@[simp]
theorem writtenText_nil : writtenText [] = [] := rfl

theorem writtenText_cons (i : Inline) (rest : List Inline) :
    writtenText (i :: rest) = i.strings.flatMap Text.visible ++ writtenText rest := by
  unfold writtenText
  rw [stringsAmong, List.flatMap_append]

@[simp]
theorem writtenText_append (xs ys : List Inline) :
    writtenText (xs ++ ys) = writtenText xs ++ writtenText ys := by
  induction xs with
  | nil => rfl
  | cons i xs ih =>
    rw [List.cons_append, writtenText_cons, ih, writtenText_cons, List.append_assoc]

section

variable (inlines : List Inline) (s : String)

@[simp]
theorem writtenText_text : writtenText [.text s] = Text.visible s := by
  simp [writtenText, stringsAmong, strings]

@[simp]
theorem writtenText_code : writtenText [.code s] = Text.visible s := by
  simp [writtenText, stringsAmong, strings]

@[simp]
theorem writtenText_lineBreak : writtenText [.lineBreak] = [] := rfl

@[simp]
theorem writtenText_image (alt : Option String) : writtenText [.image s alt] = [] := rfl

@[simp]
theorem writtenText_strong : writtenText [.strong inlines] = writtenText inlines := by
  simp [writtenText, stringsAmong, strings]

@[simp]
theorem writtenText_emphasis : writtenText [.emphasis inlines] = writtenText inlines := by
  simp [writtenText, stringsAmong, strings]

@[simp]
theorem writtenText_underline : writtenText [.underline inlines] = writtenText inlines := by
  simp [writtenText, stringsAmong, strings]

@[simp]
theorem writtenText_link : writtenText [.link s inlines] = writtenText inlines := by
  simp [writtenText, stringsAmong, strings]

end

end Inline

namespace Block

mutual

/-- The strings that a block sets as text or as code; the header of a table comes before the other
rows. -/
def strings : Block → List String
  | .paragraph inlines => Inline.stringsAmong inlines
  | .heading _ inlines => Inline.stringsAmong inlines
  | .code text _ => [text]
  | .rule => []
  | .quote blocks => stringsAmong blocks
  | .list _ items => stringsOfItems items
  | .table none rows _ => stringsOfRows rows
  | .table (some header) rows _ => stringsOfItems header ++ stringsOfRows rows

/-- The strings in a sequence of blocks. -/
def stringsAmong : List Block → List String
  | [] => []
  | b :: rest => strings b ++ stringsAmong rest

/-- The strings in items or cells. -/
def stringsOfItems : List (List Block) → List String
  | [] => []
  | blocks :: rest => stringsAmong blocks ++ stringsOfItems rest

/-- The strings in rows. -/
def stringsOfRows : List (List (List Block)) → List String
  | [] => []
  | cells :: rest => stringsOfItems cells ++ stringsOfRows rest

end

/-- The visible characters of the strings in blocks. -/
def writtenText (blocks : List Block) : List Char :=
  (stringsAmong blocks).flatMap Text.visible

@[simp]
theorem writtenText_nil : writtenText [] = [] := rfl

theorem writtenText_cons (b : Block) (rest : List Block) :
    writtenText (b :: rest) = b.strings.flatMap Text.visible ++ writtenText rest := by
  unfold writtenText
  rw [stringsAmong, List.flatMap_append]

@[simp]
theorem writtenText_append (bs cs : List Block) :
    writtenText (bs ++ cs) = writtenText bs ++ writtenText cs := by
  induction bs with
  | nil => rfl
  | cons b bs ih =>
    rw [List.cons_append, writtenText_cons, ih, writtenText_cons, List.append_assoc]

theorem writtenText_singleton (b : Block) :
    writtenText [b] = b.strings.flatMap Text.visible := by
  rw [writtenText_cons, writtenText_nil, List.append_nil]

theorem flatMap_stringsOfItems (items : List (List Block)) :
    (stringsOfItems items).flatMap Text.visible = items.flatMap writtenText := by
  induction items with
  | nil => rfl
  | cons blocks items ih =>
    rw [stringsOfItems, List.flatMap_append, ih, List.flatMap_cons]
    rfl

theorem flatMap_stringsOfRows (rows : List (List (List Block))) :
    (stringsOfRows rows).flatMap Text.visible =
      rows.flatMap fun cells => cells.flatMap writtenText := by
  induction rows with
  | nil => rfl
  | cons cells rows ih =>
    rw [stringsOfRows, List.flatMap_append, flatMap_stringsOfItems, ih, List.flatMap_cons]

section

variable (inlines : List Inline) (blocks : List Block) (items : List (List Block))

@[simp]
theorem writtenText_paragraph : writtenText [.paragraph inlines] = Inline.writtenText inlines := by
  rw [writtenText_singleton, strings, Inline.writtenText]

@[simp]
theorem writtenText_heading (level : Nat) :
    writtenText [.heading level inlines] = Inline.writtenText inlines := by
  rw [writtenText_singleton, strings, Inline.writtenText]

@[simp]
theorem writtenText_code (text : String) (language : Option String) :
    writtenText [.code text language] = Text.visible text := by
  rw [writtenText_singleton, strings, List.flatMap_singleton]

@[simp]
theorem writtenText_rule : writtenText [.rule] = [] := rfl

@[simp]
theorem writtenText_quote : writtenText [.quote blocks] = writtenText blocks := by
  rw [writtenText_singleton, strings, writtenText]

@[simp]
theorem writtenText_list (ordered : Bool) :
    writtenText [.list ordered items] = items.flatMap writtenText := by
  rw [writtenText_singleton, strings, flatMap_stringsOfItems]

/-- The header of a table counts as its first row. -/
theorem writtenText_table (header : Option (List (List Block)))
    (rows : List (List (List Block))) (alignments : Option (List Alignment)) :
    writtenText [.table header rows alignments] =
      (header.toList ++ rows).flatMap fun cells => cells.flatMap writtenText := by
  rw [writtenText_singleton]
  cases header with
  | none => rw [strings, flatMap_stringsOfRows]; rfl
  | some cells =>
    rw [strings, List.flatMap_append, flatMap_stringsOfItems, flatMap_stringsOfRows]
    rfl

end

end Block

end Interdoc

import Interdoc.Html.Builder

/-!
# Formatting elements

Elements such as `b` and `a` stay in force when the element around them ends before they do: they
are opened again in what follows (`reopenFormatting`).  An end tag that crosses the borders of other
elements takes the tree apart, so that each part of the text has the formatting that the tags around
it suggest (`closeFormatting`).

Elements such as `td` and `object` bound the formatting: a mark is left on entering one, and the
search for formatting ends at the mark.
-/

namespace Interdoc.Html

namespace Formatting

/-- Whether an entry is for a node. -/
def isFor (n : Nat) : Formatting → Bool
  | .mark => false
  | .element m _ => m == n

/-- The entries since the last mark. -/
def sinceMark (entries : List Formatting) : List (Nat × Tag) :=
  match entries with
  | .element n tag :: rest => (n, tag) :: sinceMark rest
  | _ => []

/-- Whether two tags are for the same formatting: they have the same name and the same attributes,
in any order. -/
def sameTag (s t : Tag) : Bool :=
  s.name == t.name && s.attributes.length == t.attributes.length &&
    s.attributes.all fun a => t.attributes.contains a

end Formatting

namespace Builder

/-- The entry for a node taken from the formatting in force. -/
def dropFormatting (n : Nat) (b : Builder) : Builder :=
  { b with formatting := b.formatting.filter fun f => !f.isFor n }

/-- A mark on the formatting in force. -/
def markFormatting (b : Builder) : Builder :=
  { b with formatting := .mark :: b.formatting }

/-- The formatting in force before the last mark. -/
def clearFormatting (b : Builder) : Builder :=
  { b with formatting := (b.formatting.dropWhile fun f => match f with
      | .mark => false
      | .element _ _ => true).drop 1 }

/-! ### Opening -/

/-- Whether an entry needs no reopening. -/
def isSettled (b : Builder) : Formatting → Bool
  | .mark => true
  | .element n _ => b.stack.contains n

/-- Formatting elements opened once more; the entries are given in the order of opening. -/
def reopen : List Formatting → Builder → Builder
  | [], b => b
  | .mark :: rest, b => reopen rest b
  | .element _ tag :: rest, b =>
    let (n, b) := b.openElement .html tag
    reopen rest { b with formatting := .element n tag :: b.formatting }

/-- The formatting in force that is not open, opened again. -/
def reopenFormatting (b : Builder) : Builder :=
  let closed := b.formatting.takeWhile fun f => !b.isSettled f
  let settled := b.formatting.dropWhile fun f => !b.isSettled f
  reopen closed.reverse { b with formatting := settled }

/-- A formatting element opened.  Of the same formatting at most three entries are kept, the latest
ones. -/
def openFormatting (tag : Tag) (b : Builder) : Builder :=
  let same := (Formatting.sinceMark b.formatting).filter fun e => Formatting.sameTag e.2 tag
  let b := match same.getLast? with
    | some (n, _) => if 3 ≤ same.length then b.dropFormatting n else b
    | none => b
  let (n, b) := b.openElement .html tag
  { b with formatting := .element n tag :: b.formatting }

/-! ### Closing -/

/-- An element closed by an end tag that has no rule of its own: the innermost open element with the
name, unless a special element is nearer. -/
def closeOther (name : String) (b : Builder) : Builder :=
  match b.stack.find? fun n => b.satisfies (.isHtml name) n || b.satisfies .isSpecial n with
  | some n =>
    if b.satisfies (.isHtml name) n then
      { b with stack := (b.stack.dropWhile (· != n)).drop 1 }
    else b
  | none => b

/-- The state while the elements between a block and a formatting element are copied. -/
structure Copying where
  builder : Builder
  /-- The open elements inside the one looked at, innermost first. -/
  inner : List Nat
  /-- The outermost node that has been moved. -/
  last : Nat
  /-- The node behind whose entry the entry of the formatting element goes. -/
  anchor : Nat
  /-- Whether nothing has been copied yet. -/
  isFirst : Bool

/-- The open elements between a block and a formatting element copied around the block, from the
inside to the outside.  Elements that are no formatting in force, and all after the third, are
closed instead.  The number counts the elements seen. -/
def copyBetween : Nat → List Nat → Copying → Copying
  | _, [], state => state
  | seen, n :: between, state =>
    let b := state.builder
    let entry := b.formatting.findSome? fun f => match f with
      | .element m tag => if m = n then some tag else none
      | .mark => none
    match entry with
    | some tag =>
      if 3 ≤ seen then
        copyBetween (seen + 1) between { state with builder := b.dropFormatting n }
      else
        let (copy, b) := b.create .html tag
        let formatting := b.formatting.map fun f => if f.isFor n then .element copy tag else f
        let draft := b.draft.append copy state.last
        copyBetween (seen + 1) between
          { builder := { b with draft, formatting }
            inner := state.inner ++ [copy]
            last := copy
            anchor := if state.isFirst then copy else state.anchor
            isFirst := false }
    | none => copyBetween (seen + 1) between state

/-- An entry put where the entry for a node is, or directly before it, that is later than it; the
entry of another node is dropped. -/
def placeEntry (entry : Formatting) (anchor old : Nat) : List Formatting → List Formatting
  | [] => []
  | f :: rest =>
    if f.isFor anchor then
      if anchor = old then entry :: rest
      else entry :: f :: rest.filter fun g => !g.isFor old
    else if f.isFor old then placeEntry entry anchor old rest
    else f :: placeEntry entry anchor old rest

/-- One formatting element closed around a block: what is in the block gets a copy of the formatting
element, and the block moves out of it. -/
def closeAround (n : Nat) (tag : Tag) (block : Nat) (b : Builder) : Builder :=
  let inside := b.stack.takeWhile (· != block)
  let between := ((b.stack.dropWhile (· != block)).drop 1).takeWhile (· != n)
  let outside := ((b.stack.dropWhile (· != n))).drop 1
  let copied := copyBetween 0 between ⟨b, [], block, n, true⟩
  let b := copied.builder
  let b := { b with draft := b.draft.detach copied.last }
  let b := b.put copied.last (b.placeFor (outside.headD Draft.document))
  let (copy, b) := b.create .html tag
  let draft := (b.draft.moveChildren block copy).append block copy
  { b with
    draft
    formatting := placeEntry (.element copy tag) copied.anchor n b.formatting
    stack := inside ++ copy :: block :: copied.inner ++ outside }

/-- A formatting element closed by its end tag.  The number bounds how many elements of the name are
closed. -/
def closeFormattingWithin : Nat → String → Builder → Builder
  | 0, _, b => b
  | fuel + 1, name, b =>
    match (Formatting.sinceMark b.formatting).find? fun e => e.2.name == name with
    | none => b.closeOther name
    | some (n, tag) =>
      if !b.stack.contains n then b.dropFormatting n
      else if !b.nodeInScope n then b
      else
        match ((b.stack.takeWhile (· != n)).filter (b.satisfies .isSpecial)).getLast? with
        | none => { b with stack := (b.stack.dropWhile (· != n)).drop 1 }.dropFormatting n
        | some block => closeFormattingWithin fuel name (b.closeAround n tag block)

/-- A formatting element closed by its end tag. -/
def closeFormatting (name : String) (b : Builder) : Builder :=
  match b.stack with
  | n :: _ =>
    if b.satisfies (.isHtml name) n && !b.formatting.any (·.isFor n) then b.pop
    else closeFormattingWithin 8 name b
  | [] => b

end Builder

end Interdoc.Html

import Interdoc.Markdown.Page
import Interdoc.Markdown.Tree

/-!
# Printing Markdown

Every node has one form.  Blocks are separated by blank lines; a list that is followed by another
list or by code is closed by a comment, since the two would be read as one.  The items of an ordered
list are numbered from one, and code stands between fences unless indentation is enough to mark it.
-/

namespace Interdoc.Markdown

open Page (Ink)

/-- How to print. -/
structure Options where
  /-- The greatest width of a line in a paragraph, or zero for no limit. -/
  wrapWidth : Nat := 0
  deriving DecidableEq, Repr

/-! ### Spans -/

/-- The lengths of the maximal runs of a character. -/
def runLengths (c : Char) (s : List Char) : List Nat :=
  (Text.fields (· != c) s).map List.length

/-- The least positive number that is not in the list. -/
def leastMissing (ns : List Nat) : Nat :=
  ((List.range (ns.length + 1)).find? fun i => !ns.contains (i + 1)).elim 1 (· + 1)

/-- A text between the fewest backquotes that its own runs of backquotes differ from.  Blanks set it
apart if it is empty, starts or ends with a backquote, or has a blank at an edge without being
blank. -/
def printCodeSpan (ink : Ink) (s : List Char) (p : Page) : Page :=
  let ticks := List.replicate (leastMissing (runLengths '\x60' s)) '\x60'
  let edges := [s.head?, s.getLast?]
  let isBlank := s.all fun c => c == ' ' || c == '\r' || c == '\n'
  let pad := if s.isEmpty || edges.contains (some '\x60') || (!isBlank && edges.contains (some ' '))
    then [' '] else []
  let p := p.write ink (ticks ++ pad)
  let p := p.put ink (0 < ink.limit) .literal s
  p.write ink (pad ++ ticks)

/-- Whether a text starts with a URI scheme and a colon: a letter, and then one to thirty-one
letters, digits, dots, plus signs or hyphens. -/
def startsWithScheme (s : List Char) : Bool :=
  match s with
  | [] => false
  | c :: rest =>
    let scheme := rest.takeWhile fun c => c.isAlphanum || c == '.' || c == '+' || c == '-'
    c.isAlpha && 1 ≤ scheme.length && scheme.length ≤ 31 &&
      (rest.drop scheme.length).head? == some ':'

/-- The text between the angle brackets of an autolink, if a link can be written as one: its content
begins with its own target, less the scheme of an address. -/
def autolink? (url : String) (spans : List Span) : Option (List Char) :=
  let shown := (Text.stripPrefix? "mailto:".toList url.toList).getD url.toList
  match spans with
  | .text s :: _ => if startsWithScheme url.toList && shown = s.toList then some shown else none
  | _ => none

/-- The kind of span that directly encloses another. -/
inductive Enclosing where
  | strong | emphasis | other
  deriving DecidableEq, Repr

mutual

/-- A span.  Emphasis that is the only content of other emphasis has its own delimiter, and strong
text directly within strong text has none. -/
def printSpan (ink : Ink) (around : Enclosing) (isFirst isLast : Bool) : Span → Page → Page
  | .text s, p => p.put ink (0 < ink.limit) .text s.toList
  | .softBreak, p =>
    if p.isUnbroken || 0 < ink.limit then p.put ink (0 < ink.limit) .literal [' '] else p.newLine
  | .lineBreak, p => (if isLast then p else p.write ink ['\\']).newLine
  | .code s, p => printCodeSpan ink s.toList p
  | .html s, p => p.write ink s.toList
  | .strong spans, p =>
    let mark := if around = .strong then [] else ['*', '*']
    (printSpans ink .strong true spans (p.write ink mark)).write ink mark
  | .emphasis spans, p =>
    let mark := if around = .emphasis && isFirst && isLast then ['_'] else ['*']
    (printSpans ink .emphasis true spans (p.write ink mark)).write ink mark
  | .strike spans, p =>
    (printSpans ink .other true spans (p.write ink ['~', '~'])).write ink ['~', '~']
  | .link url spans, p =>
    match autolink? url spans with
    | some shown => p.write ink ('<' :: shown ++ ['>'])
    | none =>
      let p := (printSpans ink .other true spans (p.write ink ['['])).write ink [']', '(']
      (p.put ink false .url url.toList).write ink [')']
  | .image url spans, p =>
    let p := (printSpans ink .other true spans (p.write ink ['!', '['])).write ink [']', '(']
    (p.put ink false .url url.toList).write ink [')']

/-- A sequence of spans. -/
def printSpans (ink : Ink) (around : Enclosing) (isFirst : Bool) : List Span → Page → Page
  | [], p => p
  | s :: rest, p =>
    printSpans ink around false rest (printSpan ink around isFirst rest.isEmpty s p)

end

/-! ### Blocks without blocks inside -/

/-- A heading, on a single line. -/
def printHeading (ink : Ink) (level : Nat) (spans : List Span) (p : Page) : Page :=
  let p := p.write ink (List.replicate level '#' ++ [' '])
  let p := printSpans ink .other true spans { p with atContentStart := true, isUnbroken := true }
  ({ p with isUnbroken := false }).blankLine

/-- Whether indentation is enough to mark literal lines as code: they have a name for no language,
are not too short and do not begin with a blank or end with a blank line. -/
def canIndent (info literal : List Char) : Bool :=
  let last := literal.reverse.take 2
  info.isEmpty && 2 < Page.width literal && !(literal.head?.map Text.isLayoutChar).getD false &&
    !last.all Text.isLayoutChar

/-- Literal lines: indented if that marks them as code and they are not the first thing in an item,
else between fences that are longer than any run of the fence character among them. -/
def printCode (ink : Ink) (isFirstInItem : Bool) (info literal : List Char) (p : Page) : Page :=
  let p := if isFirstInItem then p else p.blankLine
  if canIndent info literal && !isFirstInItem then
    let outer := p.indent
    let p := p.write ink [' ', ' ', ' ', ' ']
    let p := Page.write ink literal { p with indent := outer ++ [' ', ' ', ' ', ' '] }
    ({ p with indent := outer }).blankLine
  else
    let mark := if info.contains '\x60' then '~' else '\x60'
    let fence := List.replicate (max 3 ((runLengths mark literal).foldl max 0 + 1)) mark
    let p := (p.write ink (fence ++ if info.isEmpty then [] else ' ' :: info)).newLine
    ((p.write ink literal).newLine.write ink fence).blankLine

/-- The entry of an alignment in the line below the header. -/
def alignmentMark : Option Alignment → String
  | some .left => " :-- |"
  | some .center => " :-: |"
  | some .right => " --: |"
  | none => " --- |"

/-- The row of a table. -/
def printRow (ink : Ink) (cells : List (List Span)) (p : Page) : Page :=
  cells.foldl (fun p spans =>
    let p := p.write ink [' ']
    (printSpans { ink with inCell := true } .other true spans p).write ink [' ', '|'])
    (p.newLine.write ink ['|'])

/-- A table.  The line with the alignments follows the first row. -/
def printTable (ink : Ink) (alignments : List (Option Alignment)) (rows : List (List (List Span)))
    (p : Page) : Page :=
  match rows with
  | [] => p.blankLine
  | header :: rows =>
    let marks := '|' :: alignments.flatMap fun a => (alignmentMark a).toList
    let p := ((printRow ink header p.blankLine).newLine.write ink marks).newLine
    (rows.foldl (fun p row => printRow ink row p) p).blankLine

/-! ### Blocks -/

/-- The marker of an item: a hyphen, or a number with a dot, at least four characters wide. -/
def itemMarker (ordered : Bool) (number : Nat) : List Char :=
  if ordered then
    Nat.toDigits 10 number ++ (if number < 10 then ['.', ' ', ' '] else ['.', ' '])
  else ['-', ' ']

/-- The page with an indentation that is shorter by a number of characters. -/
def Page.outdent (n : Nat) (p : Page) : Page :=
  { p with indent := p.indent.take (p.indent.length - n) }

/-- What keeps a list apart from the node that follows it: a comment, if that node is a list or
code. -/
def printListEnd (ink : Ink) (next : Option Node) (p : Page) : Page :=
  match next with
  | some (.list _ _ _) | some (.code _ _) =>
    (p.newLine.write ink "<!-- end list -->".toList).blankLine
  | _ => p

mutual

/-- A node, given whether it stands directly in an item of a tight or a loose list, whether it is
the first one there, and the node that follows it. -/
def printBlock (ink : Ink) (item : Option Bool) (isFirst : Bool) (next : Option Node) :
    Node → Page → Page
  | .paragraph spans, p => (printSpans ink .other true spans p).blankLine
  | .heading level spans, p => printHeading ink level spans p
  | .list ordered tight items, p =>
    let p := printItems ink ordered tight 1 items p
    printListEnd ink next { p with isTight := item.getD false }
  | .quote nodes, p =>
    let p := p.write ink ['>', ' ']
    let p := printNodes ink none true nodes
      { p with atContentStart := true, indent := p.indent ++ ['>', ' '] }
    (p.outdent 2).blankLine
  | .code info literal, p => printCode ink (item.isSome && isFirst) info.toList literal.toList p
  | .rule, p => (p.blankLine.write ink "-----".toList).blankLine
  | .table alignments rows, p => printTable ink alignments rows p
  | .html literal, p => (p.blankLine.write ink literal.toList).blankLine

/-- A sequence of nodes. -/
def printNodes (ink : Ink) (item : Option Bool) (isFirst : Bool) : List Node → Page → Page
  | [], p => p
  | n :: rest, p =>
    printNodes ink item false rest
      (printBlock ink item isFirst rest.head? n { p with isTight := item.getD p.isTight })

/-- The items of a list from a number on.  After each item the indentation shrinks by the width of
the next marker. -/
def printItems (ink : Ink) (ordered tight : Bool) (number : Nat) : List (List Node) → Page → Page
  | [], p => p
  | nodes :: rest, p =>
    let marker := itemMarker ordered number
    let p := p.write ink marker
    let p := printNodes ink (some tight) true nodes
      { p with atContentStart := true, indent := p.indent ++ marker.map fun _ => ' ' }
    printItems ink ordered tight (number + 1) rest
      (p.outdent (itemMarker ordered (number + 1)).length).newLine

end

/-- A Markdown tree as text. -/
def print (o : Options) (nodes : List Node) : List Char :=
  (printNodes ⟨o.wrapWidth, false⟩ none true nodes {}).toText

end Interdoc.Markdown

import Interdoc.Markdown.Autolink
import Interdoc.Markdown.Emphasis
import Interdoc.Markdown.LinkSource
import Interdoc.Markdown.RawHtml

/-!
# Reading spans

A line of Markdown is read from left to right into `Mark`s: finished spans, runs of delimiters and
square brackets that are still open.  A closing bracket looks at the last open one: if a target or a
known label follows, everything since becomes the content of a link or an image, otherwise both
brackets are text.  Emphasis is resolved in the content of a link when the link is finished and in
everything else at the end.

Adjacent texts are joined afterwards, and only then mail addresses are looked for in them.
-/

namespace Interdoc.Markdown

open LinkSource (Definition)

/-- An open square bracket. -/
structure OpenBracket where
  isImage : Bool
  /-- How many characters of the text precede what stands in the bracket. -/
  position : Nat
  /-- Whether another bracket was opened after it. -/
  isFollowed : Bool
  deriving DecidableEq, Repr

/-- A piece of a line that is being read. -/
inductive Mark where
  | token (t : Token)
  | bracket (b : OpenBracket)
  deriving Repr, Inhabited

/-- A run of backquotes in a text. -/
structure TickRun where
  position : Nat
  length : Nat
  deriving DecidableEq, Repr

/-- What has been read of a text. -/
structure SpanScan where
  /-- The runs of backquotes in the whole text. -/
  ticks : List TickRun
  /-- The characters read, the last one first. -/
  before : List Char := []
  /-- The number of characters read. -/
  position : Nat := 0
  /-- The marks read, the last one first. -/
  marks : List Mark := []
  /-- Whether an open bracket that is no image can not become a link, because a link was finished
  and no bracket has been opened since. -/
  bansLinks : Bool := true
  /-- Whether a bracket was opened and none closed since. -/
  isInBrackets : Bool := false
  /-- The runs of backquotes that searches for the end of code have passed, the last one first. -/
  passedTicks : List TickRun := []
  /-- Whether one of these searches has failed, and so has passed every later run. -/
  knowsTicks : Bool := false
  unfinished : RawHtml.Unfinished := {}

/-- The text of a mark that can be nothing else. -/
def OpenBracket.toSpan (b : OpenBracket) : Span :=
  .text (if b.isImage then "![" else "[")

/-- A mark as a token: an open bracket is text. -/
def Mark.toToken : Mark → Token
  | .token t => t
  | .bracket b => .span b.toSpan

/-- The nearest bracket among the marks before, the last one first: the tokens since, the last one
first, the bracket and the marks before it. -/
def lastBracket? : List Mark → Option (List Token × OpenBracket × List Mark)
  | [] => none
  | .bracket b :: before => some ([], b, before)
  | .token t :: before => (lastBracket? before).map fun (inner, b, rest) => (t :: inner, b, rest)

/-- The marks, the last one first, after the nearest bracket has been noted to be followed. -/
def followBracket : List Mark → List Mark
  | [] => []
  | .bracket b :: before => .bracket { b with isFollowed := true } :: before
  | m :: before => m :: followBracket before

namespace SpanScan

/-- The scan after reading some characters. -/
def advance (p : SpanScan) (read : List Char) : SpanScan :=
  { p with before := read.reverse ++ p.before, position := p.position + read.length }

/-- The scan with one more span. -/
def push (p : SpanScan) (s : Span) : SpanScan :=
  { p with marks := .token (.span s) :: p.marks }

/-- The scan with one more text, if it is not empty. -/
def pushText (p : SpanScan) (s : List Char) : SpanScan :=
  if s.isEmpty then p else p.push (.text (String.ofList s))

/-- The scan with one more bracket. -/
def pushBracket (p : SpanScan) (isImage : Bool) : SpanScan :=
  { p with
    marks := .bracket ⟨isImage, p.position, false⟩ :: followBracket p.marks
    bansLinks := p.bansLinks && isImage
    isInBrackets := true }

/-- The spans that were read, brackets that are still open being text. -/
def toSpans (p : SpanScan) : List Span :=
  resolveEmphasis (p.marks.reverse.map Mark.toToken)

/-! ### Texts and line ends -/

/-- Whether a character can begin anything but text. -/
def isSpecialChar (c : Char) : Bool :=
  "\n_*\x60\\&<[]!:w~".toList.contains c

/-- Whether the last mark is a line break. -/
def endsWithBreak (p : SpanScan) : Bool :=
  match p.marks with
  | .token (.span .lineBreak) :: _ => true
  | _ => false

/-- The scan after a text of ordinary characters.  Layout characters are dropped where the line ends
and after a line break. -/
def readText (p : SpanScan) (s : List Char) (endsLine : Bool) : SpanScan :=
  let s' := if endsLine then Text.trimLayoutRight s else s
  let s' := if p.endsWithBreak then s'.dropWhile Text.isLayoutChar else s'
  (p.advance s).pushText s'

/-- The scan after a line end: a line break if two spaces precede it.  The spaces and tabs after it
are dropped. -/
def readLineEnd (p : SpanScan) (rest : List Char) : SpanScan × List Char :=
  let isBreak := match p.before with
    | ' ' :: ' ' :: _ => true
    | _ => false
  let after := LinkSource.skipSpaces rest
  let read := '\n' :: rest.take (rest.length - after.length)
  (({ p with } : SpanScan).advance read |>.push (if isBreak then .lineBreak else .softBreak), after)

/-! ### Code -/

/-- The runs of backquotes in a text, given the position of its first character and whether a
backquote precedes it. -/
def tickRuns : (position : Nat) → (afterTick : Bool) → List Char → List TickRun
  | _, _, [] => []
  | n, afterTick, c :: rest =>
    if c != '\x60' then tickRuns (n + 1) false rest
    else if afterTick then tickRuns (n + 1) true rest
    else ⟨n, (rest.takeWhile (· == '\x60')).length + 1⟩ :: tickRuns (n + 1) true rest

/-- The scan of a text before anything has been read. -/
def start (s : List Char) : SpanScan :=
  { ticks := tickRuns 0 false s }

/-- Whether code that begins with a run of backquotes, and has its first character at a position,
may have an end.  Once a search has failed, the run of that length which was passed last is taken
for the last one there is. -/
def mayClose (p : SpanScan) (count first : Nat) : Bool :=
  let last := (p.passedTicks.find? fun r => r.length == count).elim 0 TickRun.position
  count ≤ 80 && (!p.knowsTicks || first < last)

/-- The text of a code span: line ends are spaces, and a space at each edge is dropped unless the
span has nothing but spaces. -/
def codeText (s : List Char) : List Char :=
  let spaced := s.map fun c => if c == '\n' then ' ' else c
  if s.any (· != ' ') && spaced.head? == some ' ' && spaced.getLast? == some ' ' then
    (spaced.drop 1).dropLast
  else spaced

/-- The scan after a run of backquotes, and what follows: code up to the next run of the same
length, if there is one.  Runs of more than eighty are text. -/
def readTicks (p : SpanScan) (s : List Char) : SpanScan × List Char :=
  let marks := s.takeWhile (· == '\x60')
  let rest := s.drop marks.length
  let first := p.position + marks.length
  if !p.mayClose marks.length first then ((p.advance marks).pushText marks, rest)
  else
    let ahead := p.ticks.dropWhile fun r => r.position < first
    let passed := ahead.takeWhile fun r => r.length != marks.length
    match ahead.drop passed.length with
    | [] =>
      let p := { p with passedTicks := passed.reverse ++ p.passedTicks, knowsTicks := true }
      ((p.advance marks).pushText marks, rest)
    | closing :: _ =>
      let length := closing.position - first
      let code := (String.ofList ∘ codeText) (rest.take length)
      let p := { p with passedTicks := closing :: passed.reverse ++ p.passedTicks }
      ((p.advance (marks ++ rest.take (length + marks.length))).push (.code code),
        rest.drop (length + marks.length))

/-! ### Emphasis -/

/-- The scan after a run of delimiters, and what follows.  Tildes around the run are overlooked when
the characters on both sides are determined. -/
def readRun (p : SpanScan) (char : Char) (s : List Char) : SpanScan × List Char :=
  let chars := s.takeWhile (· == char)
  let rest := s.drop chars.length
  let neighbour (s : List Char) : Char := ((s.dropWhile (· == '~')).head?).getD '\n'
  let run := Run.ofContext char chars.length (neighbour p.before) (neighbour rest)
  let token := if run.opens || run.closes then Token.run run else .span run.toSpan
  ({ p.advance chars with marks := .token token :: p.marks }, rest)

/-! ### Links -/

/-- The target after the closing bracket of a link text, and what follows it: one in parentheses, or
that of a label.  Without a label, or with an empty one, the text itself is the label, provided that
no bracket was opened in it. -/
def linkTarget? (definitions : List Definition) (shown : List Char) (b : OpenBracket)
    (rest : List Char) : Option (List Char × List Char) :=
  (LinkSource.inline? rest).or <|
    let (label, after) := match LinkSource.label? rest with
      | some (label, after) => (label, after)
      | none => ([], rest)
    if label.isEmpty && b.isFollowed then none
    else
      let label := if label.isEmpty then shown else label
      (LinkSource.lookup? definitions label).map fun target => (target, after)

/-- The scan after a closing bracket, and what follows. -/
def readClosing (definitions : List Definition) (p : SpanScan) (rest : List Char) :
    SpanScan × List Char :=
  let p := { p with isInBrackets := false }
  match lastBracket? p.marks with
  | none => ((p.advance [']']).pushText [']'], rest)
  | some (inner, b, before) =>
    let shown := (p.before.take (p.position - b.position)).reverse
    let target := if !b.isImage && p.bansLinks then none else linkTarget? definitions shown b rest
    match target with
    | some (url, after) =>
      let spans := resolveEmphasis inner.reverse
      let url := String.ofList url
      let span : Span := if b.isImage then .image url spans else .link url spans
      let p := p.advance (']' :: rest.take (rest.length - after.length))
      ({ p with
          marks := .token (.span span) :: before
          bansLinks := p.bansLinks || !b.isImage },
        after)
    | none =>
      let marks := inner.map Mark.token ++ .token (.span b.toSpan) :: before
      (({ p with marks }.advance [']']).pushText [']'], rest)

/-! ### Everything else -/

/-- The scan after an angle bracket, and what follows. -/
def readAngle (p : SpanScan) (rest : List Char) : SpanScan × List Char :=
  let upTo (after : List Char) : List Char := rest.take (rest.length - after.length)
  match Autolink.bracketed? rest with
  | some (link, after) => ((p.advance ('<' :: upTo after)).push link, after)
  | none =>
    let (html, unfinished) := RawHtml.scan p.unfinished rest
    let p := { p with unfinished }
    match html with
    | some after =>
      let literal := '<' :: upTo after
      ((p.advance literal).push (.html (String.ofList literal)), after)
    | none => ((p.advance ['<']).pushText ['<'], rest)

/-- The scan after a backslash, and what follows: it makes punctuation ordinary, and a line end a
line break. -/
def readBackslash (p : SpanScan) (rest : List Char) : SpanScan × List Char :=
  match rest with
  | [] => ((p.advance ['\\']).pushText ['\\'], rest)
  | c :: after =>
    if Text.isAsciiPunctuation c then ((p.advance ['\\', c]).pushText [c], after)
    else if c == '\n' then ((p.advance ['\\', c]).push .lineBreak, after)
    else ((p.advance ['\\']).pushText ['\\'], rest)

/-- The scan after an ampersand, and what follows. -/
def readAmpersand (p : SpanScan) (rest : List Char) : SpanScan × List Char :=
  match reference? rest with
  | some (cs, after) =>
    ((p.advance ('&' :: rest.take (rest.length - after.length))).pushText cs, after)
  | none => ((p.advance ['&']).pushText ['&'], rest)

/-- The marks, the last one first, without a number of characters of their texts at the end. -/
def dropText : (count : Nat) → List Mark → List Mark
  | 0, marks => marks
  | count, .token (.span (.text s)) :: before =>
    let s := s.toList
    if count < s.length then
      .token (.span (.text (String.ofList (s.take (s.length - count))))) :: before
    else dropText (count - s.length) before
  | _, marks => marks

/-- The scan after a colon, and what follows: it may belong to a URI. -/
def readColon (p : SpanScan) (rest : List Char) : SpanScan × List Char :=
  let link := if p.isInBrackets then none else Autolink.schemeLink? p.before (':' :: rest)
  match link with
  | some (count, shown) =>
    let scheme := (p.before.take count).reverse
    let p := { p.advance shown with marks := dropText count p.marks }
    (p.push (Autolink.linkTo "" (scheme ++ shown)), (':' :: rest).drop shown.length)
  | none => ((p.advance [':']).pushText [':'], rest)

/-- The scan after the letter that may begin the address of a web page, and what follows. -/
def readWeb (p : SpanScan) (rest : List Char) : SpanScan × List Char :=
  let link := if p.isInBrackets then none else Autolink.webLink? p.before.head? ('w' :: rest)
  match link with
  | some shown =>
    ((p.advance shown).push (Autolink.linkTo "http://" shown), ('w' :: rest).drop shown.length)
  | none => ((p.advance ['w']).pushText ['w'], rest)

/-- The scan after the next character and what belongs to it, and what follows. -/
def step (definitions : List Definition) (p : SpanScan) (c : Char) (rest : List Char) :
    SpanScan × List Char :=
  match c with
  | '\n' => p.readLineEnd rest
  | '\x60' => p.readTicks (c :: rest)
  | '\\' => p.readBackslash rest
  | '&' => p.readAmpersand rest
  | '<' => p.readAngle rest
  | ':' => p.readColon rest
  | 'w' => p.readWeb rest
  | '*' => p.readRun c (c :: rest)
  | '_' => p.readRun c (c :: rest)
  | '~' => p.readRun c (c :: rest)
  | '[' => ((p.advance [c]).pushBracket false, rest)
  | ']' => p.readClosing definitions rest
  | '!' =>
    match rest with
    | '[' :: '^' :: _ => ((p.advance [c]).pushText [c], rest)
    | '[' :: after => ((p.advance [c, '[']).pushBracket true, after)
    | _ => ((p.advance [c]).pushText [c], rest)
  | _ =>
    let text := c :: rest.takeWhile fun c => !isSpecialChar c
    let after := rest.dropWhile fun c => !isSpecialChar c
    (p.readText text (after.head? == some '\n'), after)

/-- The scan of a text, given the number of characters that are left. -/
def run (definitions : List Definition) : (fuel : Nat) → SpanScan → List Char → SpanScan
  | 0, p, _ => p
  | _, p, [] => p
  | fuel + 1, p, c :: rest =>
    let (p, rest) := p.step definitions c rest
    run definitions fuel p rest

end SpanScan

/-! ### Finished texts -/

/-- A span put in front of others; two texts become one. -/
def Span.cons (s : Span) (rest : List Span) : List Span :=
  match s, rest with
  | .text a, .text b :: rest => .text (a ++ b) :: rest
  | _, _ => s :: rest

namespace Span

mutual

/-- A span in which adjacent texts are joined, at every depth. -/
def joinTexts : Span → Span
  | .strong spans => .strong (joinTextsIn spans)
  | .emphasis spans => .emphasis (joinTextsIn spans)
  | .strike spans => .strike (joinTextsIn spans)
  | .link url spans => .link url (joinTextsIn spans)
  | .image url spans => .image url (joinTextsIn spans)
  | .text s => .text s
  | .softBreak => .softBreak
  | .lineBreak => .lineBreak
  | .code s => .code s
  | .html s => .html s

/-- Spans in which adjacent texts are joined, at every depth. -/
def joinTextsIn : List Span → List Span
  | [] => []
  | s :: rest => cons (joinTexts s) (joinTextsIn rest)

end

mutual

/-- A span with the mail addresses in its texts as links.  Links and images are left as they are. -/
def linkMail : Span → List Span
  | .text s => Autolink.mailLinks s.toList
  | .strong spans => [.strong (linkMailIn spans)]
  | .emphasis spans => [.emphasis (linkMailIn spans)]
  | .strike spans => [.strike (linkMailIn spans)]
  | .softBreak => [.softBreak]
  | .lineBreak => [.lineBreak]
  | .code s => [.code s]
  | .html s => [.html s]
  | .link url spans => [.link url spans]
  | .image url spans => [.image url spans]

/-- Spans with the mail addresses in their texts as links. -/
def linkMailIn : List Span → List Span
  | [] => []
  | s :: rest => linkMail s ++ linkMailIn rest

end

/-- The spans of the text of a paragraph, a heading or a cell, before mail addresses are looked for.
Layout characters at its end are dropped. -/
def read (definitions : List LinkSource.Definition) (s : List Char) : List Span :=
  let s := Text.trimLayoutRight s
  joinTextsIn (SpanScan.run definitions s.length (.start s) s).toSpans

/-- The spans of the text of a paragraph, a heading or a cell. -/
def parse (definitions : List LinkSource.Definition) (s : List Char) : List Span :=
  linkMailIn (read definitions s)

/-- What follows the mark of a task at the start of a text: square brackets with a space or an `x`
in them, and whitespace if anything follows. -/
def afterTaskMark? (s : List Char) : Option (List Char) :=
  match s.dropWhile Text.isAsciiSpace with
  | '[' :: c :: ']' :: rest =>
    if c == ' ' || c == 'x' || c == 'X' then
      match rest with
      | [] => some []
      | d :: rest => if Text.isAsciiSpace d then some rest else none
    else none
  | _ => none

/-- The spans of the first paragraph of an item: the mark of a task is left out. -/
def parseInItem (definitions : List LinkSource.Definition) (s : List Char) : List Span :=
  match read definitions s with
  | .text first :: rest =>
    match afterTaskMark? first.toList with
    | some after => linkMailIn (.text (String.ofList after) :: rest)
    | none => linkMailIn (.text first :: rest)
  | spans => linkMailIn spans

end Span

end Interdoc.Markdown

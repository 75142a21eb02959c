import Interdoc.Text.Punctuation
import Interdoc.Text.Utf8

/-!
# Writing lines

A `Page` is the text written so far, together with what the next character depends on: the
indentation of new lines, the blank lines that are due, whether the line or its content has just
begun, and where the current line may still be broken.

Two rules give the page its shape.

* A line end that is due is written when something follows, not before.  Nothing follows the last
  block, so a page never ends with blank lines.
* When a line grows beyond the width, it is broken at the last blank at which it may be broken.  A
  word that is longer than the width stays whole.

Widths count bytes of UTF-8.
-/

namespace Interdoc.Markdown

/-- How characters with a meaning in Markdown are written. -/
inductive Escaping where
  /-- As they are. -/
  | literal
  /-- As in the text of a paragraph. -/
  | text
  /-- As in the target of a link. -/
  | url
  deriving DecidableEq, Repr

/-- The text written so far and the state of its last line. -/
structure Page where
  /-- What is written up to the blank at which the line may be broken, or all of it if there is no
  such blank; the last character first. -/
  settled : List Char := []
  /-- What follows that blank, the last character first. -/
  tail : Option (List Char) := none
  /-- What new lines begin with. -/
  indent : List Char := []
  /-- The length of the last line in bytes. -/
  column : Nat := 0
  /-- The line ends that are due: one for a new line, two for a blank line. -/
  due : Nat := 0
  atLineStart : Bool := true
  /-- Whether nothing but digits stands between the start of the content and here. -/
  atContentStart : Bool := true
  /-- Whether lines are never broken for their width. -/
  isUnbroken : Bool := false
  /-- Whether blank lines are reduced to new lines. -/
  isTight : Bool := false
  deriving Repr

namespace Page

/-- The characters written so far, the last one first. -/
def reversed (p : Page) : List Char :=
  match p.tail with
  | none => p.settled
  | some tail => tail ++ ' ' :: p.settled

/-- The written text; its last line is ended. -/
def toText (p : Page) : List Char :=
  match p.reversed with
  | [] => []
  | '\n' :: s => ('\n' :: s).reverse
  | s => ('\n' :: s).reverse

/-- The length of a text in bytes. -/
def width (s : List Char) : Nat :=
  Utf8.size s

/-- One more character. -/
def push (p : Page) (c : Char) : Page :=
  match p.tail with
  | none => { p with settled := c :: p.settled }
  | some tail => { p with tail := some (c :: tail) }

/-- One more text. -/
def append (p : Page) (s : List Char) : Page :=
  s.foldl push p

/-! ### Line ends -/

/-- A new line is due, if not more. -/
def newLine (p : Page) : Page :=
  { p with due := max p.due 1 }

/-- A blank line is due. -/
def blankLine (p : Page) : Page :=
  { p with due := max p.due 2 }

/-- The text, last character first, after a number of due line ends.  Line ends at its end count. -/
def endLines (indent : List Char) : (due : Nat) → (s : List Char) → List Char
  | 0, s => s
  | _, [] => []
  | 1, '\n' :: s => '\n' :: s
  | 1, s => '\n' :: s
  | _, '\n' :: '\n' :: s => '\n' :: '\n' :: s
  | _, ['\n'] => ['\n']
  | _, '\n' :: s => '\n' :: '\n' :: s
  | _, s => '\n' :: indent.reverse ++ '\n' :: s

/-- The page after the line ends that are due. -/
def settle (p : Page) : Page :=
  let due := if p.isTight then min p.due 1 else p.due
  if due = 0 then { p with due := 0 }
  else { p with
    settled := endLines p.indent due p.reversed
    tail := none
    column := 0
    due := 0
    atLineStart := true
    atContentStart := true }

/-- The page with the indentation written if a line has just begun. -/
def indented (p : Page) : Page :=
  if p.atLineStart then { p.append p.indent with column := width p.indent } else p

/-! ### Width -/

/-- The page after a break of its last line, if that line is too long and may be broken. -/
def breakLine (limit : Nat) (p : Page) : Page :=
  match p.tail with
  | none => p
  | some tail =>
    if 0 < limit && limit < p.column && !p.atLineStart then
      { p with
        settled := tail ++ p.indent.reverse ++ '\n' :: p.settled
        tail := none
        column := width p.indent + width tail
        atLineStart := false
        atContentStart := false }
    else p

/-- A blank at which the line may be broken, unless a digit follows: a line that starts with one
could be taken for a list item. -/
def pushBlank (p : Page) (next : Option Char) : Page :=
  let p := { p with column := p.column + 1, atLineStart := false, atContentStart := false }
  if (next.map Char.isDigit).getD false then p.push ' '
  else { p with settled := p.reversed, tail := some [] }

/-! ### Characters -/

/-- Whether a character could be taken for markup in a paragraph.  At the start of the content of a
line, list bullets are markup too, and so are the dots and parentheses after numbers, if nothing or
a layout character or a null character follows. -/
def needsEscape (atContentStart followsDigit : Bool) (c : Char) (next : Option Char) : Bool :=
  c < ' ' || "*_[]#<>\\\x60!".toList.contains c ||
  (c == '&' && (next.map Char.isAlpha).getD false) ||
  (atContentStart && !followsDigit && "-+=".toList.contains c) ||
  (atContentStart && followsDigit && ".)".toList.contains c &&
    (next.map fun d => d == '\x00' || Text.isLayoutChar d).getD true)

/-- Whether a character ends the target of a link or is not allowed there. -/
def needsUrlEscape (c : Char) : Bool :=
  Text.isLayoutChar c || "\x60<>\\()".toList.contains c

/-- A space character in a link target: a percent sign and the code in two places. -/
def percentEncoded (c : Char) : List Char :=
  let digits := (Nat.toDigits 16 c.toNat).map Char.toUpper
  '%' :: List.replicate (2 - digits.length) ' ' ++ digits

/-- A character that stands for itself. -/
def pushPlain (p : Page) (c : Char) : Page :=
  { p.push c with column := p.column + Utf8.charSize c }

/-- A short text that stands for one character. -/
def pushAll (p : Page) (s : List Char) : Page :=
  { p.append s with column := p.column + s.length }

/-- The page after a character that was written: no line start any more, and at the start of the
content only if that character is a digit. -/
def afterChar (p : Page) (c : Char) : Page :=
  { p with atLineStart := false, atContentStart := p.atContentStart && c.isDigit }

/-- One character as it is.  A line feed ends the line. -/
def putLiteral (p : Page) (c : Char) : Page :=
  if c == '\n' then
    { p.push c with
      settled := c :: p.reversed
      tail := none
      column := 0
      atLineStart := true
      atContentStart := true }
  else (p.pushPlain c).afterChar c

/-- A text as it is, in a page of limited width: an indented line is broken if it grows too long,
but not within the text.  Pipes are escaped in the cell of a table. -/
def putLiterals (limit : Nat) (inCell : Bool) (p : Page) (s : List Char) : Page :=
  s.foldl (fun p c =>
    let p := p.indented
    let p := if inCell && c == '|' then p.push '\\' else p
    (p.putLiteral c).breakLine limit) p

/-- One character of text or of a link target, with the one that follows.  A control character
becomes a numeric reference, which is written like a literal text. -/
def putEscaped (limit : Nat) (inCell : Bool) (escaping : Escaping) (p : Page) (c : Char)
    (next : Option Char) : Page :=
  let followsDigit := (p.reversed.head?.map Char.isDigit).getD false
  let escapes := match escaping with
    | .literal => false
    | .text => needsEscape p.atContentStart followsDigit c next
    | .url => needsUrlEscape c
  if !escapes then p.pushPlain c
  else if escaping = .url && Text.isLayoutChar c then p.pushAll (percentEncoded c)
  else if Text.isAsciiPunctuation c then p.pushAll ['\\', c]
  else
    let reference := '&' :: '#' :: Nat.toDigits 10 c.toNat ++ [';']
    let p := p.putLiterals limit inCell reference
    { p with column := p.column + reference.length }

/-! ### Texts -/

/-- How a text is written. -/
structure Ink where
  /-- The greatest width of a line, or zero for no limit. -/
  limit : Nat
  /-- Whether pipes would end a cell. -/
  inCell : Bool
  deriving DecidableEq, Repr

/-- The characters of a text, one after the other.  In a text that wraps, a run of blanks counts as
one blank, and blanks at the start of a line are dropped; the flag tells that the character before
was such a blank. -/
def putChars (ink : Ink) (wraps : Bool) (escaping : Escaping) :
    (afterBlank : Bool) → List Char → Page → Page
  | _, [], p => p
  | afterBlank, c :: rest, p =>
    let isBlank := c == ' ' && wraps
    if isBlank && afterBlank then putChars ink wraps escaping true rest p
    else
      let p := p.indented
      let p := if ink.inCell && c == '|' then p.push '\\' else p
      if isBlank then
        if p.atLineStart then putChars ink wraps escaping false rest (p.breakLine ink.limit)
        else
          let next := (rest.dropWhile (· == ' ')).head?
          putChars ink wraps escaping true rest ((p.pushBlank next).breakLine ink.limit)
      else
        let p := match escaping with
          | .literal => p.putLiteral c
          | _ => (p.putEscaped ink.limit ink.inCell escaping c rest.head?).afterChar c
        putChars ink wraps escaping false rest (p.breakLine ink.limit)

/-- A text after the line ends that are due. -/
def put (ink : Ink) (wraps : Bool) (escaping : Escaping) (s : List Char) (p : Page) : Page :=
  let p := p.settle
  putChars ink (wraps && !p.isUnbroken) escaping false s p

/-- A literal text, after the line ends that are due unless it is empty. -/
def write (ink : Ink) (s : List Char) (p : Page) : Page :=
  if s.isEmpty then p else p.put ink false .literal s

end Page

end Interdoc.Markdown

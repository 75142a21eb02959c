import Interdoc.Markdown.Escape
import Interdoc.Text.CaseFold
import Interdoc.Text.Utf8

/-!
# The source of a link

What follows the text of a link: a target and a title in parentheses, or a label in square brackets
that names a definition elsewhere.  Titles are read and dropped.

Labels are compared with their case folded and their whitespace reduced to single spaces.  Of
several definitions with one label the first counts.
-/

namespace Interdoc.Markdown.LinkSource

/-! ### Targets and titles -/

/-- A target between angle brackets, after the opening one: its text, and what follows.  A backslash
takes the next character with it. -/
def bracketedTarget? : List Char → Option (List Char × List Char)
  | [] => none
  | '>' :: rest => some ([], rest)
  | '\n' :: _ => none
  | '<' :: _ => none
  | ['\\'] => none
  | '\\' :: c :: rest => (bracketedTarget? rest).map fun (s, after) => ('\\' :: c :: s, after)
  | c :: rest => (bracketedTarget? rest).map fun (s, after) => (c :: s, after)

/-- A control character or a space. -/
def endsBareTarget (c : Char) : Bool :=
  c ≤ ' ' || c == '\x7f'

/-- A target without brackets, given the number of open parentheses: its text, and what follows.
Parentheses must be balanced, and at most thirty-two may be open.  A parenthesis or backslash that a
backslash precedes is ordinary. -/
def bareTargetAux : (depth : Nat) → List Char → Option (List Char × List Char)
  | _, [] => none
  | _, ['\\'] => none
  | depth, '\\' :: c :: rest =>
    if Text.isAsciiPunctuation c then
      (bareTargetAux depth rest).map fun (s, after) => ('\\' :: c :: s, after)
    else (bareTargetAux depth (c :: rest)).map fun (s, after) => ('\\' :: s, after)
  | depth, c :: rest =>
    if c = '(' then
      if depth = 32 then none
      else (bareTargetAux (depth + 1) rest).map fun (s, after) => (c :: s, after)
    else if c = ')' then
      match depth with
      | 0 => some ([], c :: rest)
      | depth + 1 => (bareTargetAux depth rest).map fun (s, after) => (c :: s, after)
    else if endsBareTarget c then if depth = 0 then some ([], c :: rest) else none
    else (bareTargetAux depth rest).map fun (s, after) => (c :: s, after)

/-- A link target: its text, and what follows.  Something must follow, and a target without brackets
does not begin with a space. -/
def target? (s : List Char) : Option (List Char × List Char) :=
  match s with
  | '<' :: rest =>
    match bracketedTarget? rest with
    | some (text, c :: after) => some (text, c :: after)
    | _ => none
  | c :: _ => if endsBareTarget c then none else bareTargetAux 0 s
  | [] => none

/-- What follows the end of a title, given the character before, and what followed the last place at
which it could have ended.  A quote after a backslash may belong to the title, if another follows.
-/
def titleEnd (opening closing : Char) (previous : Char) (found : Option (List Char)) :
    List Char → Option (List Char)
  | [] => found
  | c :: rest =>
    if c = closing then
      if previous = '\\' then titleEnd opening closing c (some rest) rest else some rest
    else if c = opening && previous != '\\' then found
    else titleEnd opening closing c found rest

/-- What follows a title between quotes or parentheses. -/
def afterTitle? (s : List Char) : Option (List Char) :=
  match s with
  | '"' :: rest => titleEnd '"' '"' '"' none rest
  | '\x27' :: rest => titleEnd '\x27' '\x27' '\x27' none rest
  | '(' :: rest => titleEnd '(' ')' '(' none rest
  | _ => none

/-- The target in parentheses after a link text, and what follows.  A title must be set apart from
the target by whitespace. -/
def inline? (s : List Char) : Option (List Char × List Char) :=
  match s with
  | '(' :: rest =>
    (target? (rest.dropWhile Text.isAsciiSpace)).bind fun (text, after) =>
      let spaced := after.dropWhile Text.isAsciiSpace
      let rest := if spaced.length < after.length then (afterTitle? spaced).getD spaced else spaced
      match rest.dropWhile Text.isAsciiSpace with
      | ')' :: rest => some (targetOf text, rest)
      | _ => none
  | _ => none

/-! ### Labels -/

/-- The text of a label up to its closing bracket, and what follows that.  A bracket after a
backslash is ordinary. -/
def labelAux : List Char → Option (List Char × List Char)
  | [] => none
  | ']' :: rest => some ([], rest)
  | '[' :: _ => none
  | '\\' :: c :: rest =>
    if Text.isAsciiPunctuation c then
      (labelAux rest).map fun (s, after) => ('\\' :: c :: s, after)
    else (labelAux (c :: rest)).map fun (s, after) => ('\\' :: s, after)
  | c :: rest => (labelAux rest).map fun (s, after) => (c :: s, after)

/-- A label in square brackets, without layout characters around it, and what follows.  It has at
most a thousand bytes. -/
def label? (s : List Char) : Option (List Char × List Char) :=
  match s with
  | '[' :: rest =>
    (labelAux rest).bind fun (s, after) =>
      if Utf8.size s ≤ 1000 then some (Text.trimLayout s, after) else none
  | _ => none

/-- A text with each run of whitespace reduced to a space. -/
def collapse : (afterBlank : Bool) → List Char → List Char
  | _, [] => []
  | afterBlank, c :: s =>
    if Text.isBlankChar c then if afterBlank then collapse true s else ' ' :: collapse true s
    else c :: collapse false s

/-- The form in which labels are compared. -/
def normalizeLabel (s : List Char) : List Char :=
  Text.fold (collapse false (Text.trimLayout s))

/-! ### Definitions -/

/-- A definition gives a label its target. -/
structure Definition where
  /-- The label in the form in which labels are compared. -/
  label : List Char
  target : List Char
  deriving DecidableEq, Repr

/-- The target of a label. -/
def lookup? (definitions : List Definition) (label : List Char) : Option (List Char) :=
  let key := normalizeLabel label
  if key.isEmpty then none else (definitions.find? fun d => d.label == key).map (·.target)

/-- The text without the spaces and tabs at its start. -/
def skipSpaces (s : List Char) : List Char :=
  s.dropWhile fun c => c == ' ' || c == '\t'

/-- What follows the rest of a line that has nothing but spaces and tabs. -/
def lineEnd? (s : List Char) : Option (List Char) :=
  match skipSpaces s with
  | [] => some []
  | '\n' :: rest => some rest
  | _ => none

/-- The text after spaces and tabs, of which one line end may be part. -/
def skipToNext (s : List Char) : List Char :=
  match skipSpaces s with
  | '\n' :: rest => skipSpaces rest
  | s => s

/-- The definition that a text begins with, and what follows it.  If what looks like a title does
not end its line, the definition ends before it, provided that its line ends there. -/
def definition? (s : List Char) : Option (Definition × List Char) :=
  (label? s).bind fun (label, rest) =>
    match rest with
    | ':' :: rest =>
      if label.isEmpty then none
      else (target? (skipToNext rest)).bind fun (text, after) =>
        let next := skipToNext after
        let titled := if next.length < after.length then (afterTitle? next).bind lineEnd? else none
        (titled.or (lineEnd? after)).map fun rest => (⟨normalizeLabel label, targetOf text⟩, rest)
    | _ => none

/-- The definitions at the start of a paragraph, given the number of characters to read, and the
rest of the paragraph. -/
def takeDefinitions : (fuel : Nat) → List Char → List Definition × List Char
  | 0, s => ([], s)
  | fuel + 1, s =>
    match definition? s with
    | none => ([], s)
    | some (d, rest) =>
      let (ds, rest) := takeDefinitions fuel rest
      (d :: ds, rest)

/-- The definitions at the start of a paragraph, and the rest of it. -/
def splitDefinitions (s : List Char) : List Definition × List Char :=
  takeDefinitions s.length s

end Interdoc.Markdown.LinkSource

import Interdoc.Latex.Group
import Interdoc.Text.Blank

/-!
# Segments

The lines of a LaTeX body fall into segments: lines of text, headings, rules, whole environments,
and gaps, which are blank lines and commands that print nothing.  Comment lines belong to no
segment.

An environment reaches from the line that opens it to the marker that closes it.  Openings of the
same name inside it are counted, except in verbatim environments, which end at the first closing
marker.  An environment that is never closed reaches to the end.
-/

namespace Interdoc.Latex

/-- A line, without its ending. -/
abbrev Line := List Char

/-- An environment as it stands in the source. -/
structure Environment where
  name : List Char
  /-- What follows the opening marker on its line. -/
  opening : List Char
  body : List Line
  /-- What follows the closing marker on its line. -/
  trailing : List Char

/-- A part of a body. -/
inductive Segment where
  /-- A line of a paragraph. -/
  | text (line : List Char)
  /-- Something that ends a paragraph and prints nothing. -/
  | gap
  | heading (level : Nat) (title : List Char)
  | rule
  | environment (e : Environment)

/-! ### Lines -/

/-- A line without its comment: the part before the first percent sign that no backslash hides. -/
def stripComment : List Char → List Char
  | [] => []
  | ['\\'] => ['\\']
  | '\\' :: c :: s => '\\' :: c :: stripComment s
  | '%' :: _ => []
  | c :: s => c :: stripComment s

/-- Whether the whole line is a comment. -/
def isComment (line : List Char) : Bool :=
  Text.startsWith ['%'] (Text.trim line)

/-- What is left of a line to be read: no blanks around it and no comment. -/
def significant (line : List Char) : List Char :=
  Text.trim (stripComment (Text.trim line))

/-- Whether a text starts with a letter, which would make a control word before it a longer one. -/
def startsWithLetter : List Char → Bool
  | [] => false
  | c :: _ => c.isAlpha

/-- Whether a line starts with a control word. -/
def startsWithCommand (command line : List Char) : Bool :=
  match Text.stripPrefix? command line with
  | some rest => !startsWithLetter rest
  | none => false

/-- The commands of a preamble, which print nothing. -/
def preambleCommands : List (List Char) :=
  ["\\documentclass".toList, "\\usepackage".toList, "\\maketitle".toList,
    "\\tableofcontents".toList]

/-- Whether a line is a preamble command. -/
def isPreamble (line : List Char) : Bool :=
  preambleCommands.any fun command => startsWithCommand command line

/-! ### Headings -/

/-- The sectioning commands, and the level of their headings. -/
def sectioning : List (List Char × Nat) :=
  [("\\section".toList, 1), ("\\subsection".toList, 2), ("\\subsubsection".toList, 3),
    ("\\paragraph".toList, 4), ("\\subparagraph".toList, 5)]

/-- What stands between an opening brace at the start and a closing brace at the end. -/
def bracedLine? : List Char → Option (List Char)
  | '\x7b' :: s => Text.stripSuffix? ['\x7d'] s
  | _ => none

/-- What follows an optional star. -/
def skipStar : List Char → List Char
  | '*' :: s => s
  | s => s

/-- The level and the title of a line that is a sectioning command with its title to the end of the
line. -/
def heading? (line : List Char) : Option (Nat × List Char) :=
  sectioning.findSome? fun (command, level) =>
    match Text.stripPrefix? command line with
    | some rest => (bracedLine? (skipStar rest)).map fun title => (level, Text.trim title)
    | none => none

/-- Whether a line is a rule. -/
def isRule (line : List Char) : Bool :=
  line == "\\hrule".toList || line == "\\hline".toList

/-! ### Environments -/

/-- The marker that opens an environment. -/
def openingMarker (name : List Char) : List Char :=
  "\\begin\x7b".toList ++ name ++ ['\x7d']

/-- The marker that closes an environment. -/
def closingMarker (name : List Char) : List Char :=
  "\\end\x7b".toList ++ name ++ ['\x7d']

/-- The name of the environment that a line opens, and what follows the marker. -/
def opening? (line : List Char) : Option (List Char × List Char) :=
  match Text.stripPrefix? "\\begin\x7b".toList line with
  | none => none
  | some rest =>
    match rest.dropWhile (· != '\x7d') with
    | [] => none
    | _ :: after =>
      let name := rest.takeWhile (· != '\x7d')
      if name.isEmpty then none else some (name, after)

/-- The environments whose body is kept as it is. -/
def verbatimNames : List (List Char) :=
  ["verbatim".toList, "Verbatim".toList, "lstlisting".toList, "minted".toList]

/-- Whether the body of an environment is kept as it is. -/
def isVerbatim (name : List Char) : Bool :=
  verbatimNames.contains name

/-- What a scan for the end of an environment found on one line. -/
inductive CloseScan where
  /-- The environment goes on, with so many of its own kind open inside it. -/
  | stillOpen (depth : Nat)
  /-- The environment ends between the two texts. -/
  | closed (before after : List Char)

/-- The scan with one more character in front of the line. -/
def CloseScan.cons (c : Char) : CloseScan → CloseScan
  | .stillOpen depth => .stillOpen depth
  | .closed before after => .closed (c :: before) after

/-- Looks for the marker that closes an environment inside which `depth` environments of the same
name are open; the second number counts the characters of a marker that are still to be passed
over. -/
def scanClose (name : List Char) : (depth skip : Nat) → List Char → CloseScan
  | depth, _, [] => .stillOpen depth
  | depth, skip + 1, c :: s => (scanClose name depth skip s).cons c
  | depth, 0, c :: s =>
    if !isVerbatim name && Text.startsWith (openingMarker name) (c :: s) then
      (scanClose name (depth + 1) ((openingMarker name).length - 1) s).cons c
    else
      match Text.stripPrefix? (closingMarker name) (c :: s), depth with
      | some after, 0 => .closed [] after
      | some _, depth + 1 => (scanClose name depth ((closingMarker name).length - 1) s).cons c
      | none, depth => (scanClose name depth 0 s).cons c

/-- The body of an environment, what follows the closing marker on its line, and the lines after
it. -/
structure Collected where
  body : List Line
  trailing : List Char
  rest : List Line

/-- The lines up to the closing marker. -/
def collectBody (name : List Char) : (depth : Nat) → List Line → Collected
  | _, [] => ⟨[], [], []⟩
  | depth, line :: lines =>
    match scanClose name depth 0 line with
    | .stillOpen depth =>
      let found := collectBody name depth lines
      { found with body := line :: found.body }
    | .closed before after =>
      ⟨if Text.isBlank before then [] else [before], Text.trim after, lines⟩

/-- The environment that is opened with the name and the rest of its line before the lines, and the
lines after it. -/
def collect (name opening : List Char) (lines : List Line) : Environment × List Line :=
  match scanClose name 0 0 opening with
  | .closed before after => (⟨name, before, [], Text.trim after⟩, lines)
  | .stillOpen depth =>
    let found := collectBody name depth lines
    (⟨name, opening, found.body, found.trailing⟩, found.rest)

theorem length_collectBody (name : List Char) (depth : Nat) (lines : List Line) :
    (collectBody name depth lines).rest.length ≤ lines.length := by
  induction lines generalizing depth with
  | nil => simp [collectBody]
  | cons line lines ih =>
    unfold collectBody
    split
    · next depth' _ => have := ih depth'; simp; omega
    · simp

theorem length_collect (name opening : List Char) (lines : List Line) :
    (collect name opening lines).2.length ≤ lines.length := by
  unfold collect
  split
  · simp
  · exact length_collectBody _ _ _

/-! ### Segmentation -/

/-- The segments of a sequence of lines. -/
def segments : List Line → List Segment
  | [] => []
  | raw :: lines =>
    let line := significant raw
    if isComment raw then segments lines
    else if line.isEmpty || isPreamble line then .gap :: segments lines
    else match heading? line with
      | some (level, title) => .heading level title :: segments lines
      | none =>
        if isRule line then .rule :: segments lines
        else match opening? line with
          | some (name, opening) =>
            .environment (collect name opening lines).1 :: segments (collect name opening lines).2
          | none => .text line :: segments lines
termination_by lines => lines.length
decreasing_by
  all_goals
    simp only [List.length_cons]
    try have := length_collect name opening lines
    omega

end Interdoc.Latex

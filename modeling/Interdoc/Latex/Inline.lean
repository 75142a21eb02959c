import Interdoc.Document.PlainText
import Interdoc.Latex.Command

/-!
# Inline text

`Latex.tokenize` reads a span of LaTeX source as inlines, from left to right: a command where there
is one, and literal text up to the next backslash otherwise.  A backslash without a command is
literal text itself, so every source can be read.  Arguments are read in the same way, which ends
because an argument is shorter than the text around it.

The result is not in normal form: literal text comes in pieces.
-/

namespace Interdoc.Latex

/-- Whether a character begins no command. -/
def isLiteral (c : Char) : Bool := c != '\\'

theorem length_dropLiteral (s : List Char) : (s.dropWhile isLiteral).length ≤ s.length :=
  (List.dropWhile_sublist isLiteral (l := s)).length_le

/-- The inlines of a span of source. -/
def tokenize : List Char → List Inline
  | [] => []
  | c :: s =>
    if c = '\\' then
      match _h : Command.read? s with
      | some (.char a, rest) => .text (String.singleton a) :: tokenize rest
      | some (.lineBreak, rest) => .lineBreak :: tokenize rest
      | some (.strong body, rest) => .strong (tokenize body) :: tokenize rest
      | some (.emphasis body, rest) => .emphasis (tokenize body) :: tokenize rest
      | some (.underline body, rest) => .underline (tokenize body) :: tokenize rest
      | some (.code body, rest) => .code (Inline.plainTextList (tokenize body)) :: tokenize rest
      | some (.link href label, rest) =>
        .link (Inline.plainTextList (tokenize href)) (tokenize label) :: tokenize rest
      | some (.url href, rest) =>
        let target := Inline.plainTextList (tokenize href)
        .link target [.text target] :: tokenize rest
      | some (.image src none, rest) =>
        .image (Inline.plainTextList (tokenize src)) none :: tokenize rest
      | some (.image src (some alt), rest) =>
        .image (Inline.plainTextList (tokenize src)) (some (Inline.plainTextList (tokenize alt))) ::
          tokenize rest
      | none =>
        .text (String.ofList (c :: s.takeWhile isLiteral)) :: tokenize (s.dropWhile isLiteral)
    else .text (String.ofList (c :: s.takeWhile isLiteral)) :: tokenize (s.dropWhile isLiteral)
termination_by s => s.length
decreasing_by
  all_goals first
    | (have hsize := Command.size_read? _h
       simp only [Command.size, Option.map_some, Option.map_none, Option.getD_some,
         Option.getD_none] at hsize
       simp only [List.length_cons]
       omega)
    | (have hsize := length_dropLiteral s
       simp only [List.length_cons]
       omega)

/-- The text of a command argument, with its escapes resolved. -/
def argumentText (s : List Char) : String :=
  Inline.plainTextList (tokenize s)

end Interdoc.Latex

import Interdoc.Latex.Command
import Interdoc.Latex.Segment

/-!
# Code environments

A verbatim environment holds its body as it is.  The language of a `lstlisting` is the value of the
option `language`, that of a `minted` its mandatory argument.  Text that follows these arguments on
the opening line belongs to the code.
-/

namespace Interdoc.Latex

/-- A value without the braces around it, however many there are. -/
def trimBraces (s : List Char) : List Char :=
  let isBrace (c : Char) : Bool := c == '\x7b' || c == '\x7d'
  Text.dropRightWhile isBrace (s.dropWhile isBrace)

/-- The value of the first option `language`. -/
def language? : List (List Char) → Option (List Char)
  | [] => none
  | entry :: rest =>
    match Command.splitEquals? entry with
    | some (key, value) =>
      if Text.trim key = "language".toList then some (trimBraces (Text.trim value))
      else language? rest
    | none => language? rest

/-- The language of a code environment, and what follows its arguments on the opening line. -/
def listingArguments (name opening : List Char) : Option (List Char) × List Char :=
  let rest := Text.trimLeft opening
  if name = "lstlisting".toList then
    match bracketed? rest with
    | some (options, after) => (language? (splitTop ',' options), after)
    | none => (none, rest)
  else if name = "minted".toList then
    match braced? (skipBracketed rest) with
    | some (language, after) => (some (Text.trim language), after)
    | none => (none, skipBracketed rest)
  else (none, rest)

/-- The language of a code environment, which is never empty. -/
def Environment.language? (e : Environment) : Option (List Char) :=
  (listingArguments e.name e.opening).1.filter fun language => !language.isEmpty

/-- The lines of a code environment, among them what follows the arguments unless it is blank. -/
def Environment.codeLines (e : Environment) : List Line :=
  let first := (listingArguments e.name e.opening).2
  if Text.isBlank first then e.body else first :: e.body

end Interdoc.Latex

import Interdoc.Markdown.Tree
import Interdoc.Text.Punctuation

/-!
# Emphasis

Runs of asterisks, underscores and tildes may begin or end emphasis.  `Run.ofContext` says which, by
the characters on both sides; `resolveEmphasis` pairs the runs.

The runs are met from left to right.  One that may end emphasis looks back for the nearest run of
its kind that may begin it; what stands between becomes emphasized text, and both runs lose one or
two characters.  Runs between the two remain text.  A run that is used up is gone, and one that
finds no partner waits for a later one if it may begin emphasis itself.
-/

namespace Interdoc.Markdown

/-- A run of one delimiter character. -/
structure Run where
  char : Char
  /-- The characters that are left. -/
  count : Nat
  /-- The characters that there were at first. -/
  length : Nat
  opens : Bool
  closes : Bool
  deriving DecidableEq, Repr

/-- A span, or a run of delimiters that is not yet paired. -/
inductive Token where
  | span (s : Span)
  | run (r : Run)
  deriving Repr, Inhabited

/-! ### Which runs begin or end emphasis -/

/-- A run, given the characters before and after it; a line end counts where there is none.  A run
opens if no whitespace follows it, and punctuation only where whitespace or punctuation precedes; it
closes in the reverse case.  Underscores within words do neither. -/
def Run.ofContext (char : Char) (count : Nat) (before after : Char) : Run :=
  let beforeBlank := Text.isBlankChar before
  let afterBlank := Text.isBlankChar after
  let beforeMark := Text.isPunctuation before
  let afterMark := Text.isPunctuation after
  let left := !afterBlank && (!afterMark || beforeBlank || beforeMark)
  let right := !beforeBlank && (!beforeMark || afterBlank || afterMark)
  let isWordBound := char == '_'
  { char, count, length := count
    opens := left && (!isWordBound || !right || beforeMark)
    closes := right && (!isWordBound || !left || afterMark) }

/-! ### Tokens as spans -/

/-- What is left of a run, as text. -/
def Run.toSpan (r : Run) : Span :=
  .text (String.ofList (List.replicate r.count r.char))

/-- A token as a span: an unpaired run is text. -/
def Token.toSpan : Token → Span
  | .span s => s
  | .run r => r.toSpan

/-! ### Pairing -/

/-- Whether a run may end what another has begun.  If one of the two may do both, the sum of their
lengths must not be a multiple of three, unless both lengths are. -/
def Run.pairsWith (closer opener : Run) : Bool :=
  opener.opens && opener.char == closer.char &&
    !((closer.opens || opener.closes) && (opener.length + closer.length) % 3 == 0 &&
      !(opener.length % 3 == 0 && closer.length % 3 == 0))

/-- The nearest token before a run that it may end, the last one first: the spans between the two in
their order, the opening run and what stands before it. -/
def findOpener? (closer : Run) : List Token → Option (List Span × Run × List Token)
  | [] => none
  | .run r :: before =>
    if closer.pairsWith r then some ([], r, before)
    else (findOpener? closer before).map fun (inner, o, rest) => (inner ++ [r.toSpan], o, rest)
  | .span s :: before =>
    (findOpener? closer before).map fun (inner, o, rest) => (inner ++ [s], o, rest)

/-- The emphasis that a number of delimiter characters on each side stands for. -/
def emphasized (char : Char) (used : Nat) (spans : List Span) : Span :=
  if char == '~' then .strike spans
  else if used = 1 then .emphasis spans
  else .strong spans

/-- A run with fewer characters left, unless none is left. -/
def Run.shrink (r : Run) (used : Nat) : List Token :=
  if r.count ≤ used then [] else [.run { r with count := r.count - used }]

/-- The tokens, the last one first, after a closing run has been paired as often as it can be.  The
number bounds the pairings.  Tildes are only paired with as many tildes, at most two; if the nearest
partner has another number, pairing ends, which `none` stands for. -/
def closeRun : (fuel : Nat) → Run → List Token → Option (List Token)
  | 0, r, tokens => some (.run r :: tokens)
  | fuel + 1, r, tokens =>
    match findOpener? r tokens with
    | none => some ((if r.opens then .run r else .span r.toSpan) :: tokens)
    | some (inner, opener, before) =>
      let used := if 2 ≤ r.count && 2 ≤ opener.count then 2 else 1
      if r.char == '~' && !(opener.count == used && r.count == used) then none
      else
        let tokens := .span (emphasized r.char used inner) :: opener.shrink used ++ before
        if r.count ≤ used then some tokens
        else closeRun fuel { r with count := r.count - used } tokens

/-- The spans of a sequence of tokens, given those before it, the last one first. -/
def resolveTokens : (before tokens : List Token) → List Span
  | before, [] => (before.map Token.toSpan).reverse
  | before, .span s :: rest => resolveTokens (.span s :: before) rest
  | before, .run r :: rest =>
    if r.closes then
      match closeRun r.count r before with
      | some tokens => resolveTokens tokens rest
      | none => (before.map Token.toSpan).reverse ++ (Token.run r :: rest).map Token.toSpan
    else resolveTokens (.run r :: before) rest

/-- The spans of a sequence of tokens, with the runs paired. -/
def resolveEmphasis (tokens : List Token) : List Span :=
  resolveTokens [] tokens

end Interdoc.Markdown

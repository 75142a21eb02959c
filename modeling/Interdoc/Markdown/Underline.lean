import Interdoc.Document.Basic

/-!
# Underlining

Markdown has no notation for underlined text, so it is written with the HTML tags `<u>` and `</u>`.
A reader meets them as raw HTML among the inlines, in any case of the letters and with blanks around
them, or as one raw text that holds both tags and what stands between.

`resolveUnderline` pairs the tags like brackets: a closing tag ends the innermost open one.  Tags
without a partner and all other raw HTML stay as text, so that nothing is lost.
-/

namespace Interdoc.Markdown

open Interdoc (Inline)

/-- An inline or a raw HTML text. -/
inductive InlinePiece where
  | inline (i : Inline)
  | raw (s : String)
  deriving DecidableEq, Repr

/-- What a raw HTML text means. -/
inductive RawKind where
  | opening
  | closing
  /-- Both tags, with the text between them. -/
  | wrapped (inner : List Char)
  | opaqueText
  deriving DecidableEq, Repr

/-- The tag that begins underlined text. -/
def openTag : List Char := "<u>".toList

/-- The tag that ends underlined text. -/
def closeTag : List Char := "</u>".toList

/-- What a raw HTML text means.  A text between both tags must not open another one. -/
def RawKind.ofRaw (raw : List Char) : RawKind :=
  let s := Text.trim raw
  let lower := Text.toLower s
  if lower = openTag then .opening
  else if lower = closeTag then .closing
  else if Text.startsWith openTag lower && (Text.stripSuffix? closeTag lower).isSome then
    let inner := (s.take (s.length - closeTag.length)).drop openTag.length
    if Text.contains openTag (Text.toLower inner) then .opaqueText else .wrapped inner
  else .opaqueText

/-- Inlines gathered since an opening tag, in reverse, and those of the open tags around it, the
innermost first. -/
structure Pairing where
  current : List Inline
  outer : List (List Inline)

namespace Pairing

/-- Nothing gathered yet. -/
def empty : Pairing := ⟨[], []⟩

/-- One more inline. -/
def push (p : Pairing) (i : Inline) : Pairing :=
  { p with current := i :: p.current }

/-- One more piece. -/
def step (p : Pairing) : InlinePiece → Pairing
  | .inline i => p.push i
  | .raw s =>
    match RawKind.ofRaw s.toList, p.outer with
    | .opening, _ => ⟨[], p.current :: p.outer⟩
    | .closing, around :: outer => ⟨.underline p.current.reverse :: around, outer⟩
    | .closing, [] => p.push (.text s)
    | .wrapped inner, _ => p.push (.underline [.text (String.ofList inner)])
    | .opaqueText, _ => p.push (.text s)

/-- The inlines, after tags that are never closed have become text again. -/
def finish (current : List Inline) : (outer : List (List Inline)) → List Inline
  | [] => current.reverse
  | around :: outer => finish (current ++ .text (String.ofList openTag) :: around) outer

end Pairing

/-- The inlines of a sequence of pieces, with the tags paired. -/
def resolveUnderline (pieces : List InlinePiece) : List Inline :=
  let p := pieces.foldl Pairing.step .empty
  Pairing.finish p.current p.outer

end Interdoc.Markdown

import Interdoc.Html.Blocks
import Interdoc.Html.Mode.Foreign

/-!
# Reading HTML

Every text is an HTML document.  `parse` makes the tree of a document, and `bodyOf` finds the nodes
in its body.
-/

namespace Interdoc.Html

namespace Builder

/-- One token, read in one mode after the other until it has been dealt with.  The first number
bounds how many modes are tried. -/
def receiveWithin : Nat → Builder → Token → Builder × Next
  | 0, b, _ => (b, .done)
  | fuel + 1, b, token =>
    match if b.isForeign token then b.stepForeign token else b.step b.mode token with
    | (b, .again mode) => receiveWithin fuel (b.goTo mode) token
    | result => result

/-- One token.  Each mode that passes a token on closes an element, or is one of a few that follow
each other. -/
def receive (b : Builder) (token : Token) : Builder × Next :=
  let skips := b.skipsLineFeed
  let b := { b with skipsLineFeed := false }
  match token, skips with
  | .char '\n', true => (b, .done)
  | token, _ => b.receiveWithin (4 * b.stack.length + 32) token

/-- Several tokens; the last decides how to go on. -/
def receiveAll (b : Builder) : List Token → Builder × Next
  | [] => (b, .done)
  | [token] => b.receive token
  | token :: rest => (b.receive token).1.receiveAll rest

/-- The content of an element that holds no elements. -/
def receiveRaw (n : Nat) (content : List Char) (b : Builder) : Builder :=
  let content := match content, b.skipsLineFeed with
    | '\n' :: rest, true => rest
    | content, _ => content
  { b with
    draft := content.foldl (fun d c => d.appendChar n c) b.draft
    skipsLineFeed := false }

/-- Characters, none of which is part of a tag. -/
def receivePlain (b : Builder) (s : List Char) : Builder :=
  (replaceNulls s).foldl (fun b c => (b.receive (.char c)).1) b

/-- A whole text.  The first number bounds the number of steps; each takes a part of the text. -/
def readWithin : Nat → Builder → List Char → Builder
  | 0, b, _ => b
  | _, b, [] => (b.receive .eof).1
  | fuel + 1, b, s =>
    let (tokens, rest) := Token.next b.isInForeign s
    match b.receiveAll tokens with
    | (b, .raw kind n) =>
      let name := ((b.draft.name? n).map (·.name)).getD ""
      let (content, rest) := rawText kind name rest
      readWithin fuel (b.receiveRaw n content) rest
    | (b, .plain) => ((b.receivePlain rest).receive .eof).1
    | (b, _) => readWithin fuel b rest

end Builder

/-- The tree of a document. -/
def parse (s : List Char) : Node :=
  let s := prepare s
  let b := Builder.readWithin (s.length + 1) .new s
  b.draft.toNode Draft.document

mutual

/-- The children of the first `body` element below a node. -/
def bodyIn? : Node → Option (List Node)
  | .text _ => none
  | .other children => bodyAmong? children
  | .element _ _ children => bodyAmong? children

/-- The children of the first `body` element among nodes and below them. -/
def bodyAmong? : List Node → Option (List Node)
  | [] => none
  | node :: rest =>
    match node with
    | .element tag attributes children =>
      if tag = "body" then some children
      else (bodyIn? (.element tag attributes children)).or (bodyAmong? rest)
    | .text s => (bodyIn? (.text s)).or (bodyAmong? rest)
    | .other children => (bodyIn? (.other children)).or (bodyAmong? rest)

end

/-- The nodes in the body of a document. -/
def bodyOf (document : Node) : List Node :=
  (bodyIn? document).getD []

/-- The document that an HTML text describes. -/
def readDocument (s : List Char) : Document :=
  documentOf (bodyOf (parse s))

end Interdoc.Html

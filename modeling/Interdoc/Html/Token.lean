import Interdoc.Html.Doctype
import Interdoc.Html.Reference

/-!
# HTML tokens

The text of an HTML document falls into tags, comments, document types and single characters.  No
text is malformed: what cannot be read as a tag or a reference stands for itself, and a tag that the
text ends in is dropped.

`Token.next` reads the tokens at the start of a text.  The content of elements such as `title` and
`script` is not made of tokens; `rawText` reads it up to the end tag of the element.
-/

namespace Interdoc.Html

/-- A start tag. -/
structure Tag where
  /-- The name in lower case. -/
  name : String
  /-- The attributes by name in lower case; no name occurs twice. -/
  attributes : List (String × String)
  isSelfClosing : Bool
  deriving DecidableEq, Repr, Inhabited

/-- A token. -/
inductive Token where
  | doctype (d : Doctype)
  | start (tag : Tag)
  | finish (name : String)
  | comment
  | char (c : Char)
  /-- The end of the text. -/
  | eof

/-! ### The text as a whole -/

/-- A text with every line ending as a line feed. -/
def unifyLineEndings : List Char → List Char
  | [] => []
  | '\r' :: '\n' :: s => '\n' :: unifyLineEndings s
  | c :: s => (if c = '\r' then '\n' else c) :: unifyLineEndings s

/-- A text without a byte order mark, with every line ending as a line feed. -/
def prepare (s : List Char) : List Char :=
  unifyLineEndings ((Text.stripPrefix? ['\ufeff'] s).getD s)

/-- A text without null characters, which are replaced. -/
def replaceNulls (s : List Char) : List Char :=
  s.map fun c => if c = '\x00' then replacement else c

/-! ### Comments -/

/-- Where a reader is in a comment: at its start, possibly after a dash, or inside it, possibly
after one or two dashes or after two dashes and an exclamation mark. -/
inductive CommentState where
  | start | startDash | inside | dash | dashes | bang

/-- What follows a comment. -/
def skipComment : CommentState → List Char → List Char
  | _, [] => []
  | .start, c :: s =>
    if c = '-' then skipComment .startDash s else if c = '>' then s else skipComment .inside s
  | .startDash, c :: s =>
    if c = '-' then skipComment .dashes s else if c = '>' then s else skipComment .inside s
  | .inside, c :: s => skipComment (if c = '-' then .dash else .inside) s
  | .dash, c :: s => skipComment (if c = '-' then .dashes else .inside) s
  | .dashes, c :: s =>
    if c = '>' then s
    else skipComment (if c = '-' then .dashes else if c = '!' then .bang else .inside) s
  | .bang, c :: s => if c = '>' then s else skipComment (if c = '-' then .dash else .inside) s

/-! ### Tags -/

/-- A name in lower case without null characters. -/
def nameOf (s : List Char) : String :=
  String.ofList (Text.toLower (replaceNulls s))

/-- Whether a character ends the name of a tag. -/
def endsTagName (c : Char) : Bool :=
  Text.isAsciiBlank c || c == '/' || c == '>'

/-- The value of an attribute, after the equals sign; `none` if its quotes are not closed. -/
def attributeValue? (s : List Char) : Option (String × List Char) :=
  let valueOf (cs : List Char) : String := String.ofList (resolve true (replaceNulls cs))
  match s.dropWhile Text.isAsciiBlank with
  | [] => some ("", [])
  | quote :: s =>
    if quote = '"' || quote = '\x27' then
      match s.dropWhile (· != quote) with
      | [] => none
      | _ :: rest => some (valueOf (s.takeWhile (· != quote)), rest)
    else
      let inValue := fun c => !Text.isAsciiBlank c && c != '>'
      some (valueOf ((quote :: s).takeWhile inValue), (quote :: s).dropWhile inValue)

/-- An attribute: its name, which may start with an equals sign, and its value. -/
def attribute? (s : List Char) : Option ((String × String) × List Char) :=
  match s with
  | [] => none
  | c :: s =>
    let inName := fun c => !endsTagName c && c != '='
    let name := nameOf (c :: s.takeWhile inName)
    let rest := s.dropWhile inName
    match rest.dropWhile Text.isAsciiBlank with
    | '=' :: after =>
      match attributeValue? after with
      | none => none
      | some (value, rest) => some ((name, value), rest)
    | _ => some ((name, ""), rest)

/-- Attributes with one more at the end, unless its name is taken. -/
def addAttribute (attributes : List (String × String)) (a : String × String) :
    List (String × String) :=
  if attributes.any fun b => b.1 == a.1 then attributes else attributes ++ [a]

/-- The attributes of a tag and whether it closes itself; `none` if the text ends inside the tag.
The first number bounds the number of attributes. -/
def attributes? : Nat → List (String × String) → List Char →
    Option (List (String × String) × Bool × List Char)
  | 0, _, _ => none
  | fuel + 1, attributes, s =>
    match s.dropWhile Text.isAsciiBlank with
    | [] => none
    | '>' :: rest => some (attributes, false, rest)
    | '/' :: '>' :: rest => some (attributes, true, rest)
    | '/' :: rest => attributes? fuel attributes rest
    | s =>
      match attribute? s with
      | none => none
      | some (a, rest) => attributes? fuel (addAttribute attributes a) rest

/-- A tag from its name on; `none` if the text ends inside it. -/
def tag? (s : List Char) : Option (Tag × List Char) :=
  let name := s.takeWhile fun c => !endsTagName c
  let rest := s.dropWhile fun c => !endsTagName c
  match attributes? (rest.length + 1) [] rest with
  | none => none
  | some (attributes, isSelfClosing, rest) => some (⟨nameOf name, attributes, isSelfClosing⟩, rest)

/-! ### Tokens -/

/-- What a text that starts with the given one, after `<!`, holds. -/
def markup (allowsCdata : Bool) (s : List Char) : List Token × List Char :=
  match Text.stripPrefix? ['-', '-'] s, stripWord? "doctype" s,
      Text.stripPrefix? "[CDATA[".toList s with
  | some rest, _, _ => ([.comment], skipComment .start rest)
  | none, some rest, _ =>
    let (d, rest) := readDoctype rest
    ([.doctype d], rest)
  | none, none, some rest =>
    if allowsCdata then
      match Text.splitOnce? "]]>".toList rest with
      | some (content, rest) => (content.map .char, rest)
      | none => (rest.map .char, [])
    else ([.comment], skipTag s)
  | none, none, none => ([.comment], skipTag s)

/-- The tokens at the start of a text after a less-than sign. -/
def afterLess (allowsCdata : Bool) (s : List Char) : List Token × List Char :=
  match s with
  | '!' :: rest => markup allowsCdata rest
  | '?' :: rest => ([.comment], skipTag rest)
  | ['/'] => ([.char '<', .char '/'], [])
  | '/' :: '>' :: rest => ([], rest)
  | '/' :: c :: rest =>
    if c.isAlpha then
      match tag? (c :: rest) with
      | none => ([], [])
      | some (tag, rest) => ([.finish tag.name], rest)
    else ([.comment], skipTag (c :: rest))
  | c :: rest =>
    if c.isAlpha then
      match tag? (c :: rest) with
      | none => ([], [])
      | some (tag, rest) => ([.start tag], rest)
    else ([.char '<'], c :: rest)
  | [] => ([.char '<'], [])

/-- The tokens at the start of a text, and the rest of the text.  Sections of character data are
read only where they are allowed. -/
def Token.next (allowsCdata : Bool) (s : List Char) : List Token × List Char :=
  match s with
  | [] => ([], [])
  | '<' :: s => afterLess allowsCdata s
  | '&' :: s =>
    match reference? false s with
    | some (cs, n) => (cs.map .char, s.drop n)
    | none => ([.char '&'], s)
  | c :: s => ([.char c], s)

/-! ### Raw text -/

/-- How the content of an element without child elements is read. -/
inductive RawKind where
  /-- With references. -/
  | references
  /-- As it stands. -/
  | verbatim
  /-- As it stands, but an end tag inside a comment with a script in it is not one. -/
  | script
  deriving DecidableEq, Repr

/-- What follows the end tag of an element that stands after a less-than sign: nothing if the text
ends inside the tag. -/
def endTag? (name : String) (s : List Char) : Option (List Char) :=
  match s with
  | '/' :: s =>
    match stripWord? name s with
    | some (c :: rest) =>
      if endsTagName c then
        match attributes? (rest.length + 2) [] (c :: rest) with
        | none => some []
        | some (_, _, rest) => some rest
      else none
    | _ => none
  | _ => none

/-- The text before an end tag and the text after it. -/
def textBefore (name : String) : List Char → List Char × List Char
  | [] => ([], [])
  | c :: s =>
    match if c = '<' then endTag? name s else none with
    | some rest => ([], rest)
    | none =>
      let (content, rest) := textBefore name s
      (c :: content, rest)

/-- Where a reader is in a script. -/
inductive ScriptState where
  | plain
  /-- In the mark that opens a comment, so many characters before its end. -/
  | opening (left : Nat)
  /-- In a comment, after so many dashes. -/
  | comment (dashes : Nat)
  /-- In a script in a comment, after so many dashes. -/
  | nested (dashes : Nat)

/-- Whether a text starts with the name `script` and the end of a tag name. -/
def startsScriptName (s : List Char) : Bool :=
  match stripWord? "script" s with
  | some (c :: _) => endsTagName c
  | _ => false

/-- The state after a character of a script that starts no end tag; `s` is what follows the
character. -/
def ScriptState.after (state : ScriptState) (c : Char) (s : List Char) : ScriptState :=
  match state with
  | .plain => if c = '<' && Text.startsWith "!--".toList s then .opening 3 else .plain
  | .opening left => if left ≤ 1 then .comment 2 else .opening (left - 1)
  | .comment dashes =>
    if c = '<' then if startsScriptName s then .nested 0 else .comment 0
    else if c = '-' then .comment (dashes + 1)
    else if c = '>' && 2 ≤ dashes then .plain
    else .comment 0
  | .nested dashes =>
    if c = '<' then
      match s with
      | '/' :: s => if startsScriptName s then .comment 0 else .nested 0
      | _ => .nested 0
    else if c = '-' then .nested (dashes + 1)
    else if c = '>' && 2 ≤ dashes then .plain
    else .nested 0

/-- Whether an end tag can stand here. -/
def ScriptState.allowsEnd : ScriptState → Bool
  | .nested _ => false
  | _ => true

/-- The text of a script and the text after its end tag. -/
def scriptText : ScriptState → List Char → List Char × List Char
  | _, [] => ([], [])
  | state, c :: s =>
    match if c = '<' && state.allowsEnd then endTag? "script" s else none with
    | some rest => ([], rest)
    | none =>
      let (content, rest) := scriptText (state.after c s) s
      (c :: content, rest)

/-- The content of an element without child elements, and the text after its end tag. -/
def rawText (kind : RawKind) (name : String) (s : List Char) : List Char × List Char :=
  match kind with
  | .references =>
    let (content, rest) := textBefore name s
    (resolve false (replaceNulls content), rest)
  | .verbatim =>
    let (content, rest) := textBefore name s
    (replaceNulls content, rest)
  | .script =>
    let (content, rest) := scriptText .plain s
    (replaceNulls content, rest)

end Interdoc.Html

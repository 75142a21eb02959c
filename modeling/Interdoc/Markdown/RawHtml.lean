import Interdoc.Text.Blank

/-!
# Raw HTML

The grammar of tags, comments, instructions, declarations and CDATA sections that Markdown passes
through as they are.  It is much smaller than the grammar of HTML.

Each scanner reads one construct at the start of a text and returns what follows it.
-/

namespace Interdoc.Markdown.RawHtml

/-! ### Tags -/

/-- Whether a character may go on in the name of a tag. -/
def isNameChar (c : Char) : Bool :=
  c.isAlphanum || c == '-'

/-- The name of a tag. -/
def tagName? (s : List Char) : Option (List Char) :=
  match s with
  | c :: rest => if c.isAlpha then some (rest.dropWhile isNameChar) else none
  | [] => none

/-- The name of an attribute. -/
def attributeName? (s : List Char) : Option (List Char) :=
  match s with
  | c :: rest =>
    if c.isAlpha || c == '_' || c == ':' then
      some (rest.dropWhile fun c => c.isAlphanum || c == ':' || c == '.' || c == '_' || c == '-')
    else none
  | [] => none

/-- Whether a character may stand in a value without quotes. -/
def isUnquotedChar (c : Char) : Bool :=
  !Text.isAsciiSpace c && !"\"'=<>\x60".toList.contains c

/-- The value of an attribute. -/
def attributeValue? (s : List Char) : Option (List Char) :=
  match s with
  | [] => none
  | c :: rest =>
    if c == '"' || c == '\x27' then
      match rest.dropWhile (· != c) with
      | _ :: after => some after
      | [] => none
    else if isUnquotedChar c then some (rest.dropWhile isUnquotedChar)
    else none

/-- An attribute with its value after the blanks before it, or `none` if there is no attribute.  The
value may be missing, but not after an equals sign. -/
def attribute? (s : List Char) : Option (List Char) :=
  (attributeName? s).bind fun rest =>
    match rest.dropWhile Text.isAsciiSpace with
    | '=' :: value => attributeValue? (value.dropWhile Text.isAsciiSpace)
    | _ => some rest

/-- The end of an opening tag: a slash, if any, and the angle bracket. -/
def tagEnd? (s : List Char) : Option (List Char) :=
  match s with
  | '>' :: rest => some rest
  | '/' :: '>' :: rest => some rest
  | _ => none

/-- The attributes of an opening tag and its end, given the number of characters to read. -/
def attributesAndEnd? : (fuel : Nat) → (s : List Char) → Option (List Char)
  | 0, _ => none
  | fuel + 1, s =>
    let rest := s.dropWhile Text.isAsciiSpace
    match tagEnd? rest with
    | some after => some after
    | none =>
      if rest.length < s.length then (attribute? rest).bind (attributesAndEnd? fuel) else none

/-- An opening tag, after the angle bracket. -/
def openingTag? (s : List Char) : Option (List Char) :=
  (tagName? s).bind fun rest => attributesAndEnd? (rest.length + 1) rest

/-- A closing tag, after the angle bracket. -/
def closingTag? (s : List Char) : Option (List Char) :=
  match s with
  | '/' :: name =>
    (tagName? name).bind fun rest =>
      match rest.dropWhile Text.isAsciiSpace with
      | '>' :: after => some after
      | _ => none
  | _ => none

/-- A tag, after the angle bracket. -/
def tag? (s : List Char) : Option (List Char) :=
  (openingTag? s).or (closingTag? s)

/-! ### Other constructs

Their content is read in steps, so that a character that could begin the end is not looked at again
when what follows it does not go on. -/

/-- What follows the first end of a comment.  Two hyphens that are not followed by an angle bracket
take the next character with them, and so does a single hyphen. -/
def commentEnd? : List Char → Option (List Char)
  | '-' :: '-' :: '>' :: rest => some rest
  | '-' :: '-' :: _ :: rest => commentEnd? rest
  | ['-', '-'] => none
  | '-' :: _ :: rest => commentEnd? rest
  | _ :: rest => commentEnd? rest
  | [] => none

/-- What follows the first end of a CDATA section.  Brackets take the next character with them as
hyphens do in comments. -/
def cdataEnd? : List Char → Option (List Char)
  | ']' :: ']' :: '>' :: rest => some rest
  | ']' :: ']' :: _ :: rest => cdataEnd? rest
  | [']', ']'] => none
  | ']' :: _ :: rest => cdataEnd? rest
  | _ :: rest => cdataEnd? rest
  | [] => none

/-- What follows the first end of a processing instruction.  A question mark takes the next
character with it. -/
def instructionEnd? : List Char → Option (List Char)
  | '?' :: '>' :: rest => some rest
  | '?' :: _ :: rest => instructionEnd? rest
  | _ :: rest => instructionEnd? rest
  | [] => none

/-- What follows the name of a declaration, after the exclamation mark: the name has capital letters
only and a blank must follow it. -/
def afterDeclarationName? (s : List Char) : Option (List Char) :=
  let rest := s.dropWhile Char.isUpper
  if rest.length < s.length && (rest.head?.map Text.isAsciiSpace).getD false then some rest
  else none

/-- What follows the end of a declaration. -/
def declarationEnd? (s : List Char) : Option (List Char) :=
  match s.dropWhile (· != '>') with
  | _ :: after => some after
  | [] => none

/-- The constructs that are not looked for again once one of them has been found unfinished. -/
structure Unfinished where
  comment : Bool := false
  cdata : Bool := false
  declaration : Bool := false
  instruction : Bool := false
  deriving DecidableEq, Repr

/-- A comment, after the two hyphens. -/
def comment? (s : List Char) : Option (List Char) :=
  match s with
  | '>' :: rest => some rest
  | '-' :: '>' :: rest => some rest
  | _ => commentEnd? s

/-- The raw HTML after an angle bracket, if there is any, and what is known to be unfinished from
here on. -/
def scan (known : Unfinished) (s : List Char) : Option (List Char) × Unfinished :=
  match s with
  | '!' :: rest =>
    if known.comment then (none, known)
    else match rest with
      | '-' :: '-' :: content =>
        match comment? content with
        | some after => (some after, known)
        | none => (none, { known with comment := true })
      | '[' :: content =>
        if known.cdata then (none, known)
        else match (Text.stripPrefix? "CDATA[".toList content).map cdataEnd? with
          | some (some after) => (some after, known)
          | some none => (none, { known with cdata := true })
          | none => (none, known)
      | _ =>
        if known.declaration then (none, known)
        else match (afterDeclarationName? rest).map declarationEnd? with
          | some (some after) => (some after, known)
          | some none => (none, { known with declaration := true })
          | none => (none, known)
  | '?' :: rest =>
    if known.instruction then (none, known)
    else match instructionEnd? rest with
      | some after => (some after, known)
      | none => (none, { known with instruction := true })
  | _ => (tag? s, known)

end Interdoc.Markdown.RawHtml

import Interdoc.Markdown.Escape
import Interdoc.Markdown.Tree

/-!
# Autolinks

Addresses become links without brackets.  Between angle brackets stands any URI or an electronic
mail address.  In running text, three forms are found: what begins with `www.`, what begins with one
of three schemes, two slashes and a host, and mail addresses.  The first two are looked for while a
line is read, mail addresses afterwards in its finished texts.

A link in running text extends to the next layout character or angle bracket, less the punctuation
at its end, less an entity at its end, and less a closing parenthesis that has no partner.
-/

namespace Interdoc.Markdown.Autolink

/-! ### Between angle brackets -/

/-- A URI and its closing bracket, after the opening one: the URI, and what follows. -/
def uri? (s : List Char) : Option (List Char × List Char) :=
  match s with
  | c :: rest =>
    let scheme := rest.takeWhile fun c => c.isAlphanum || c == '.' || c == '+' || c == '-'
    let after := rest.drop scheme.length
    let uri := s.takeWhile fun c => ' ' < c && c != '<' && c != '>'
    if c.isAlpha && 1 ≤ scheme.length && scheme.length ≤ 31 && after.head? == some ':' &&
        (s.drop uri.length).head? == some '>' then
      some (uri, s.drop (uri.length + 1))
    else none
  | [] => none

/-- Whether a character may stand in the local part of a bracketed mail address. -/
def isLocalChar (c : Char) : Bool :=
  c.isAlphanum || ".!#$%&\x27*+/=?^_\x60\x7b|\x7d~-".toList.contains c

/-- Whether a part of a domain name has one to sixty-three letters, digits and hyphens, with no
hyphen at an edge. -/
def isDomainLabel (s : List Char) : Bool :=
  s.all (fun c => c.isAlphanum || c == '-') && 1 ≤ s.length && s.length ≤ 63 &&
    s.head? != some '-' && s.getLast? != some '-'

/-- A mail address and its closing bracket, after the opening one: the address, and what follows. -/
def mail? (s : List Char) : Option (List Char × List Char) :=
  let address := s.takeWhile (· != '>')
  let localPart := address.takeWhile isLocalChar
  match address.drop localPart.length with
  | '@' :: domain =>
    if !localPart.isEmpty && (Text.splitOn '.' domain).all isDomainLabel &&
        address.length < s.length then
      some (address, s.drop (address.length + 1))
    else none
  | _ => none

/-- A link whose content is its own target, with a text put in front of the target. -/
def linkTo (scheme : String) (shown : List Char) : Span :=
  .link (scheme ++ String.ofList shown) [.text (String.ofList shown)]

/-- The autolink after an opening angle bracket, and what follows it. -/
def bracketed? (s : List Char) : Option (Span × List Char) :=
  match uri? s with
  | some (uri, rest) => some (linkTo "" (resolveReferences uri), rest)
  | none =>
    (mail? s).map fun (address, rest) => (linkTo "mailto:" (resolveReferences address), rest)

/-! ### Hosts -/

/-- Whether a character may stand in the name of a host: anything but blanks and punctuation. -/
def isHostChar (c : Char) : Bool :=
  !Text.isBlankChar c && !Text.isPunctuation c

/-- How a host name has been read so far: its dots, and the underscores before and after the last of
them. -/
structure HostScan where
  dots : Nat := 0
  before : Nat := 0
  after : Nat := 0

/-- Whether the text begins with an acceptable host name.  Its last two parts may have no
underscore, though if the text ends with it, names with more than ten dots are accepted all the
same; and a name without a dot is only accepted where a short name will do. -/
def isHost (short : Bool) (scan : HostScan) : List Char → Bool
  | [] =>
    !((0 < scan.before || 0 < scan.after) && scan.dots ≤ 10) && (short || 0 < scan.dots)
  | c :: rest =>
    if c == '\\' && !rest.isEmpty then isHost short scan rest
    else if c == '_' then isHost short { scan with after := scan.after + 1 } rest
    else if c == '.' then isHost short ⟨scan.dots + 1, scan.after, 0⟩ rest
    else if isHostChar c || c == '-' then isHost short scan rest
    else scan.before == 0 && scan.after == 0 && (short || 0 < scan.dots)

/-! ### The end of a link -/

/-- A link text, last character first, without what does not belong to it at its end. -/
def trimEndAux : (fuel : Nat) → (reversed : List Char) → List Char
  | 0, s => s
  | _, [] => []
  | fuel + 1, c :: s =>
    if "?!.,:*_~\x27\"".toList.contains c then trimEndAux fuel s
    else if c == ';' then
      let name := s.takeWhile Char.isAlpha
      match s.drop name.length with
      | '&' :: rest => trimEndAux fuel (if name.isEmpty then s else rest)
      | _ => trimEndAux fuel s
    else if c == ')' && (c :: s).count '(' < (c :: s).count ')' then trimEndAux fuel s
    else c :: s

/-- A link text without what does not belong to it at its end. -/
def trimEnd (s : List Char) : List Char :=
  let s := s.takeWhile (· != '<')
  (trimEndAux s.length s.reverse).reverse

/-! ### In running text -/

/-- A link that begins with `www.` here, given the character before: the text of the link. -/
def webLink? (previous : Option Char) (s : List Char) : Option (List Char) :=
  let isFree := match previous with
    | none => true
    | some c => Text.isLayoutChar c || "*_~([".toList.contains c
  if isFree && Text.startsWith "www.".toList s && isHost false {} s then
    some (trimEnd (s.takeWhile fun c => !Text.isLayoutChar c))
  else none

/-- A link whose colon is here, given the text before, last character first: how many characters
before belong to it, and how it goes on. -/
def schemeLink? (before s : List Char) : Option (Nat × List Char) :=
  let scheme := (before.takeWhile Char.isAlpha).reverse
  match s with
  | ':' :: '/' :: '/' :: host =>
    if host.isEmpty || !(["http".toList, "https".toList, "ftp".toList].contains scheme) then none
    else if isHost true {} host then
      some (scheme.length, trimEnd (s.takeWhile fun c => !Text.isLayoutChar c))
    else none
  | _ => none

/-! ### Mail addresses -/

/-- Whether the letters directly before a colon are a scheme, given the text before the colon, last
character first. -/
def endsWithScheme (scheme : String) (before : List Char) : Bool :=
  (before.takeWhile Char.isAlpha).reverse == scheme.toList

/-- What stands before the at sign of an address. -/
structure MailStart where
  /-- The characters that belong to the link. -/
  characters : List Char := []
  /-- Whether the address has no scheme of its own. -/
  isBare : Bool := true
  /-- Whether its scheme is that of chat addresses, which may have a path. -/
  isChat : Bool := false

/-- The start of an address, given what has been found of it and the text before that, last
character first. -/
def mailStart (found : MailStart) : List Char → MailStart
  | [] => found
  | c :: before =>
    let grown := { found with characters := c :: found.characters }
    if c.isAlphanum || c == '.' || c == '+' || c == '-' || c == '_' then mailStart grown before
    else if c == ':' && endsWithScheme "mailto" before then
      mailStart { grown with isBare := false } before
    else if c == ':' && endsWithScheme "xmpp" before then
      mailStart { grown with isBare := false, isChat := true } before
    else found

/-- The domain after the at sign of an address and the number of its dots, or `none` if another at
sign follows. -/
def mailDomain? (isChat : Bool) : List Char → Option (List Char × Nat)
  | [] => some ([], 0)
  | c :: s =>
    if c == '@' then none
    else
      let isDot := c == '.' && (s.head?.map Char.isAlphanum).getD false
      if c.isAlphanum || isDot || (c == '/' && isChat) || c == '-' || c == '_' then
        (mailDomain? isChat s).map fun (domain, dots) =>
          (c :: domain, if isDot then dots + 1 else dots)
      else some ([], 0)

/-- The link around an at sign, given the text before it, last character first, and the text after
it: how many characters before belong to the link, the link, and what follows it. -/
def mailAt? (before s : List Char) : Option (Nat × Span × List Char) :=
  let start := mailStart {} before
  if start.characters.isEmpty then none
  else
    (mailDomain? start.isChat s).bind fun (domain, dots) =>
      let endsWell := match domain.getLast? with
        | some c => c.isAlpha || c == '.'
        | none => false
      if dots = 0 || !endsWell then none
      else
        let after := trimEnd ('@' :: domain)
        if after.isEmpty then none
        else
          let shown := start.characters ++ after
          some (start.characters.length,
            linkTo (if start.isBare then "mailto:" else "") shown, s.drop (after.length - 1))

/-- The text of the characters, if there are any. -/
def textOf (s : List Char) : List Span :=
  if s.isEmpty then [] else [.text (String.ofList s)]

/-- A text with the mail addresses in it as links, given the number of open square brackets and what
has been read of the current text, last character first.  Addresses in brackets are left alone. -/
def mailLinksAux : (fuel : Nat) → (brackets : Int) → (before s : List Char) → List Span
  | 0, _, before, s => textOf (before.reverse ++ s)
  | _, _, before, [] => textOf before.reverse
  | fuel + 1, brackets, before, c :: s =>
    let brackets := if c == '[' then brackets + 1 else if c == ']' then brackets - 1 else brackets
    if 0 < brackets || c != '@' then mailLinksAux fuel brackets (c :: before) s
    else
      match mailAt? before s with
      | none => mailLinksAux fuel brackets (c :: before) s
      | some (n, link, rest) =>
        textOf (before.drop n).reverse ++ link :: mailLinksAux fuel 0 [] rest

/-- A text with the mail addresses in it as links. -/
def mailLinks (s : List Char) : List Span :=
  mailLinksAux s.length 0 [] s

end Interdoc.Markdown.Autolink

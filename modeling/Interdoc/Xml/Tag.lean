import Interdoc.Xml.Reference

/-!
# Tags

What stands between the angle brackets of a start tag is a name and attributes.  An attribute is a
name, an equals sign and a value in quotes, with blanks around the equals sign as one likes; no name
may occur twice.  The prefix of a name, up to its first colon, is dropped when the attributes are
read, and so is that of the element name.
-/

namespace Interdoc.Xml

/-- The blanks of XML. -/
def isSpace (c : Char) : Bool :=
  c == ' ' || c == '\r' || c == '\n' || c == '\t'

/-- The part of a name after its first colon, or all of it. -/
def localName (name : List Char) : List Char :=
  match name.dropWhile (· != ':') with
  | _ :: rest => rest
  | [] => name

/-- An attribute as it stands: its name, the position of the name, and the text of the value. -/
structure RawAttribute where
  name : List Char
  position : Nat
  value : List Char

/-- The value in quotes at the start of a text, and what follows it. -/
def quoted? (position : Nat) : List Char → Except Fault (List Char × List Char)
  | [] => .error (.expectedValue position)
  | q :: s =>
    if q = '"' || q = '\'' then
      match s.dropWhile (· != q) with
      | _ :: rest => .ok (s.takeWhile (· != q), rest)
      | [] => .error (.unclosedQuote (position + 1 + Utf8.size s) q)
    else .error (.unquotedValue position)

/-- The first attribute of a text that begins at a position with a name, and what follows it. -/
def attribute? (position : Nat) (s : List Char) (earlier : List RawAttribute) :
    Except Fault (RawAttribute × List Char) :=
  -- The first character belongs to the name whatever it is.
  let tail := s.drop 1
  let name := s.take 1 ++ tail.takeWhile fun c => c != '=' && !isSpace c
  let afterName := s.drop name.length
  let rest := afterName.dropWhile isSpace
  let offset (t : List Char) : Nat := position + Utf8.size s - Utf8.size t
  match rest with
  | '=' :: t =>
    match earlier.find? fun a => a.name == name with
    | some a => .error (.duplicated position a.position)
    | none =>
      let value := t.dropWhile isSpace
      match quoted? (offset value) value with
      | .error e => .error e
      | .ok (v, rest) => .ok (⟨name, position, v⟩, rest)
  | _ => .error (.expectedEquals (offset rest))

/-- The attributes of a text that begins at a position, after those read so far.  The bound is the
length of the text. -/
def attributesFrom : (bound position : Nat) → List Char → List RawAttribute →
    List RawAttribute × Option Fault
  | 0, _, _, _ => ([], none)
  | bound + 1, position, s, earlier =>
    let rest := s.dropWhile isSpace
    let start := position + Utf8.size s - Utf8.size rest
    if rest.isEmpty then ([], none)
    else match attribute? start rest earlier with
      | .error e => ([], some e)
      | .ok (a, after) =>
        let (more, fault) :=
          attributesFrom bound (start + Utf8.size rest - Utf8.size after) after (earlier ++ [a])
        (a :: more, fault)

/-- The content of a start tag. -/
structure Tag where
  content : List Char
  deriving DecidableEq, Repr

namespace Tag

/-- The name of the element as it stands. -/
def name (t : Tag) : List Char :=
  t.content.takeWhile fun c => !isSpace c

/-- An attribute by its local name, with the references in its value replaced. -/
def decode? (a : RawAttribute) : Except Fault (String × String) :=
  match unescape? a.value with
  | .error e => .error e
  | .ok value => .ok (String.ofList (localName a.name), String.ofList value)

/-- The attributes by their local names, in order.  Of several faults the first one counts. -/
def attributes? (t : Tag) : Except Fault (List (String × String)) :=
  let (raw, fault) := attributesFrom t.content.length (Utf8.size t.name)
    (t.content.drop t.name.length) []
  match raw.mapM decode?, fault with
  | .error e, _ => .error e
  | .ok _, some e => .error e
  | .ok attributes, none => .ok attributes

end Tag

end Interdoc.Xml

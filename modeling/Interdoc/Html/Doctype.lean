import Interdoc.Text.Blank

/-!
# Document types

The document type at the start of an HTML document decides one thing: whether the document is read
the way old documents are, in which a table may stand inside a paragraph.  It is old if the document
type is missing or broken, has a name other than `html`, or an identifier from before 1999.
-/

namespace Interdoc.Html

/-! ### Old identifiers -/

/-- Public identifiers, in lower case, of which any beginning makes a document old. -/
def oldPublicBeginnings : List String :=
  ["-//advasoft ltd//dtd html 3.0 aswedit + extensions//",
   "-//as//dtd html 3.0 aswedit + extensions//", "-//ietf//dtd html 2.0 level 1//",
   "-//ietf//dtd html 2.0 level 2//", "-//ietf//dtd html 2.0 strict level 1//",
   "-//ietf//dtd html 2.0 strict level 2//", "-//ietf//dtd html 2.0 strict//",
   "-//ietf//dtd html 2.0//", "-//ietf//dtd html 2.1e//", "-//ietf//dtd html 3.0//",
   "-//ietf//dtd html 3.2 final//", "-//ietf//dtd html 3.2//", "-//ietf//dtd html 3//",
   "-//ietf//dtd html level 0//", "-//ietf//dtd html level 1//", "-//ietf//dtd html level 2//",
   "-//ietf//dtd html level 3//", "-//ietf//dtd html strict level 0//",
   "-//ietf//dtd html strict level 1//", "-//ietf//dtd html strict level 2//",
   "-//ietf//dtd html strict level 3//", "-//ietf//dtd html strict//", "-//ietf//dtd html//",
   "-//metrius//dtd metrius presentational//",
   "-//microsoft//dtd internet explorer 2.0 html strict//",
   "-//microsoft//dtd internet explorer 2.0 html//",
   "-//microsoft//dtd internet explorer 2.0 tables//",
   "-//microsoft//dtd internet explorer 3.0 html strict//",
   "-//microsoft//dtd internet explorer 3.0 html//",
   "-//microsoft//dtd internet explorer 3.0 tables//", "-//netscape comm. corp.//dtd html//",
   "-//netscape comm. corp.//dtd strict html//", "-//o\x27reilly and associates//dtd html 2.0//",
   "-//o\x27reilly and associates//dtd html extended 1.0//",
   "-//o\x27reilly and associates//dtd html extended relaxed 1.0//",
   "-//softquad software//dtd hotmetal pro 6.0::19990601::extensions to html 4.0//",
   "-//softquad//dtd hotmetal pro 4.0::19971010::extensions to html 4.0//",
   "-//spyglass//dtd html 2.0 extended//", "-//sq//dtd html 2.0 hotmetal + extensions//",
   "-//sun microsystems corp.//dtd hotjava html//",
   "-//sun microsystems corp.//dtd hotjava strict html//", "-//w3c//dtd html 3 1995-03-24//",
   "-//w3c//dtd html 3.2 draft//", "-//w3c//dtd html 3.2 final//", "-//w3c//dtd html 3.2//",
   "-//w3c//dtd html 3.2s draft//", "-//w3c//dtd html 4.0 frameset//",
   "-//w3c//dtd html 4.0 transitional//", "-//w3c//dtd html experimental 19960712//",
   "-//w3c//dtd html experimental 970421//", "-//w3c//dtd w3 html//", "-//w3o//dtd w3 html 3.0//",
   "-//webtechs//dtd mozilla html 2.0//", "-//webtechs//dtd mozilla html//"]

/-- Public identifiers, in lower case, that make a document old. -/
def oldPublicIdentifiers : List String :=
  ["-//w3o//dtd w3 html strict 3.0//en//", "-/w3c/dtd html 4.0 transitional/en", "html"]

/-- Beginnings of public identifiers that make a document old unless there is a system identifier.
-/
def oldAloneBeginnings : List String :=
  ["-//w3c//dtd html 4.01 frameset//", "-//w3c//dtd html 4.01 transitional//"]

/-- The system identifier that makes a document old. -/
def oldSystemIdentifier : String :=
  "http://www.ibm.com/data/dtd/v11/ibmxhtml1-transitional.dtd"

/-! ### Reading -/

/-- A document type. -/
structure Doctype where
  name : List Char
  publicId : Option (List Char)
  systemId : Option (List Char)
  /-- Whether it was cut short or malformed. -/
  isBroken : Bool

/-- Whether a document of the type is read as an old one. -/
def Doctype.isOld (d : Doctype) : Bool :=
  let publicId := d.publicId.map fun s => String.ofList (Text.toLower s)
  let systemId := d.systemId.map fun s => String.ofList (Text.toLower s)
  let beginsWith (beginnings : List String) : Bool :=
    beginnings.any fun b => (publicId.map fun p => Text.startsWith b.toList p.toList).getD false
  d.isBroken || d.name != "html".toList ||
    (publicId.map oldPublicIdentifiers.contains).getD false ||
    systemId == some oldSystemIdentifier || beginsWith oldPublicBeginnings ||
    (systemId.isNone && beginsWith oldAloneBeginnings)

/-- What follows the end of the tag that the text is in. -/
def skipTag (s : List Char) : List Char :=
  (s.dropWhile (· != '>')).drop 1

/-- A quoted identifier, `none` if the text does not start with a quote; the truth value tells
whether the closing quote was missing. -/
def quotedIdentifier? (s : List Char) : Option (List Char × Bool × List Char) :=
  match s with
  | [] => none
  | quote :: s =>
    if quote = '"' || quote = '\x27' then
      let id := s.takeWhile fun c => c != quote && c != '>'
      match s.dropWhile fun c => c != quote && c != '>' with
      | [] => some (id, true, [])
      | c :: rest => if c = quote then some (id, false, rest) else some (id, true, rest)
    else none

/-- The text after a word in any case. -/
def stripWord? (word : String) (s : List Char) : Option (List Char) :=
  let n := word.length
  if Text.sameLetters (s.take n) word.toList then some (s.drop n) else none

/-- The end of a document type after its last identifier: what is malformed here does no harm. -/
def finishDoctype (d : Doctype) (s : List Char) : Doctype × List Char :=
  match s.dropWhile Text.isAsciiBlank with
  | [] => ({ d with isBroken := true }, [])
  | s => (d, skipTag s)

/-- A system identifier and the end of the document type. -/
def systemIdentifier (d : Doctype) (s : List Char) : Doctype × List Char :=
  match quotedIdentifier? s with
  | none => ({ d with isBroken := true }, skipTag s)
  | some (id, true, rest) => ({ d with systemId := some id, isBroken := true }, rest)
  | some (id, false, rest) => finishDoctype { d with systemId := some id } rest

/-- A public identifier, perhaps a system identifier, and the end of the document type. -/
def publicIdentifier (d : Doctype) (s : List Char) : Doctype × List Char :=
  match quotedIdentifier? s with
  | none => ({ d with isBroken := true }, skipTag s)
  | some (id, true, rest) => ({ d with publicId := some id, isBroken := true }, rest)
  | some (id, false, rest) =>
    let d := { d with publicId := some id }
    match rest.dropWhile Text.isAsciiBlank with
    | '>' :: rest => (d, rest)
    | rest => systemIdentifier d rest

/-- The document type after the word `DOCTYPE`, and the text after it. -/
def readDoctype (s : List Char) : Doctype × List Char :=
  let s := s.dropWhile Text.isAsciiBlank
  let inName := fun c => !Text.isAsciiBlank c && c != '>'
  let d : Doctype := ⟨Text.toLower (s.takeWhile inName), none, none, false⟩
  match (s.dropWhile inName).dropWhile Text.isAsciiBlank with
  | [] => ({ d with isBroken := true }, [])
  | '>' :: rest => ({ d with isBroken := d.name.isEmpty }, rest)
  | s =>
    match stripWord? "public" s, stripWord? "system" s with
    | some rest, _ => publicIdentifier d (rest.dropWhile Text.isAsciiBlank)
    | none, some rest => systemIdentifier d (rest.dropWhile Text.isAsciiBlank)
    | none, none => ({ d with isBroken := true }, skipTag s)

end Interdoc.Html

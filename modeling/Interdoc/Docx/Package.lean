import Interdoc.Text.Utf8
import Interdoc.Xml.Fault
import Interdoc.Xml.Tree
import Interdoc.Zip.Archive

/-!
# Packages

Three parts of a package matter to a reader: the document, the relationships, which give the targets
of links and images by their ids, and the numbering, which says of each list level whether it is
numbered or bulleted.  The last two may be missing.  Where an id is defined more than once, the last
definition counts.

A package is a zip archive in which one part has to be, the document; `Docx.Fault` says why one cannot
be read.
-/

namespace Interdoc.Docx

/-! ### Faults -/

/-- Why a package cannot be read. -/
inductive Fault where
  | notArchive (fault : Zip.Fault)
  | missingPart (part : String)
  | unreadable (part : String) (fault : Zip.Fault)
  | notText (part : String)
  | xml (fault : Xml.Fault)
  deriving DecidableEq, Repr

/-- A fault in words. -/
def Fault.message : Fault → String
  | .notArchive fault => "not a DOCX package: " ++ fault.message
  | .missingPart part => "missing " ++ part ++ " in package"
  | .unreadable part fault => "cannot read " ++ part ++ ": " ++ fault.message
  | .notText part => "cannot read " ++ part ++ ": stream did not contain valid UTF-8"
  | .xml fault => fault.message

/-! ### Packages -/

/-- The value of the last pair with the key. -/
def lookupLast? {α : Type} (key : String) (pairs : List (String × α)) : Option α :=
  pairs.reverse.lookup key

/-- The parts of a package that a reader looks at. -/
structure Package where
  document : Xml.Node
  /-- The targets by relationship id. -/
  relationships : List (String × String)
  /-- The levels by numbering id, and for each level whether it is numbered. -/
  numbering : List (String × List (String × Bool))

namespace Package

/-- The target of a relationship. -/
def target? (p : Package) (id : String) : Option String :=
  lookupLast? id p.relationships

/-- Whether a level of a list is numbered; a level without a definition is not. -/
def isOrdered (p : Package) (numId level : String) : Bool :=
  ((lookupLast? numId p.numbering).bind (lookupLast? level)).getD false

/-! ### Parts -/

/-- The relationships in a part. -/
def relationshipsOf (root : Xml.Node) : List (String × String) :=
  (root.childrenNamed "Relationship").filterMap fun r => do
    return (← r.attribute? "Id", ← r.attribute? "Target")

/-- A level of a list definition, and whether it is numbered. -/
def levelOf? (level : Xml.Node) : Option (String × Bool) := do
  let index ← level.attribute? "ilvl"
  let format := (level.pathValue? ["numFmt"]).getD "bullet"
  return (index, format != "bullet" && format != "none")

/-- A list definition with its levels. -/
def definitionOf? (definition : Xml.Node) : Option (String × List (String × Bool)) := do
  let id ← definition.attribute? "abstractNumId"
  return (id, (definition.childrenNamed "lvl").filterMap levelOf?)

/-- The numbering in a part: each number takes its levels from a definition. -/
def numberingOf (root : Xml.Node) : List (String × List (String × Bool)) :=
  let definitions := (root.childrenNamed "abstractNum").filterMap definitionOf?
  (root.childrenNamed "num").filterMap fun num => do
    let id ← num.attribute? "numId"
    let definition ← num.pathValue? ["abstractNumId"]
    return (id, ← lookupLast? definition definitions)

/-- The name of the part with the document. -/
def documentPart : String := "word/document.xml"

/-- The name of the part with the relationships of the document. -/
def relationshipsPart : String := "word/_rels/document.xml.rels"

/-- The name of the part with the numbering. -/
def numberingPart : String := "word/numbering.xml"

/-! ### Opening -/

/-- The tree in a part of an archive, if it has the part. -/
def part? (archive : Zip.Archive) (name : String) : Except Fault (Option Xml.Node) :=
  match archive.find? (Utf8.encode name.toList) with
  | .error e => .error (.unreadable name e)
  | .ok none => .ok none
  | .ok (some bytes) =>
    match Utf8.decode? bytes with
    | .error _ => .error (.notText name)
    | .ok s =>
      match Xml.parse? s with
      | .error e => .error (.xml e)
      | .ok root => .ok (some root)

/-- The package in an archive.  The parts are read one after the other, and the first fault ends the
reading. -/
def ofArchive (archive : Zip.Archive) : Except Fault Package := do
  match ← part? archive documentPart with
  | none => .error (.missingPart documentPart)
  | some document =>
    let relationships ← part? archive relationshipsPart
    let numbering ← part? archive numberingPart
    return { document
             relationships := (relationships.map relationshipsOf).getD []
             numbering := (numbering.map numberingOf).getD [] }

/-- The package in a sequence of octets. -/
def open? (bytes : Zip.Bytes) : Except Fault Package :=
  match Zip.Archive.open? bytes with
  | .error e => .error (.notArchive e)
  | .ok archive => ofArchive archive

end Package

end Interdoc.Docx

import Interdoc.Docx.Style
import Interdoc.Latex.Printer
import Interdoc.Markdown.Printer
import Interdoc.Text.Utf8
import Interdoc.Toml.Parser

/-!
# Configuration

A configuration says how each format is written and what is logged.  It is made from layers of TOML
over the built-in one; a later layer wins, member by member.  Names of members are compared in lower
case, and a name at the top that contains dots stands for members inside one another.

Scalars are converted where a member asks for another kind: numbers and words such as `yes` and
`off` are truth values, truth values and texts are numbers if they can be, and every scalar is a
text.
-/

namespace Interdoc

/-- How documents are read and written. -/
structure Configuration where
  /-- What is logged. -/
  logFilter : String
  markdown : Markdown.Options
  latex : Latex.Options
  docx : Docx.Options
  deriving Repr

namespace Configuration

open Toml (Value Members)

/-! ### Faults -/

/-- Why there is no configuration. -/
inductive Fault where
  | missingFile (name : String)
  | malformed (name : String)
  /-- A value of a kind that can not be converted, with the names that lead to it and the layer that
  set it. -/
  | wrongKind (found expected : String) (path : List String) (origin : Option String)
  | missingMember (name : String)
  deriving DecidableEq, Repr

/-- A fault in words. -/
def Fault.message : Fault → String
  | .missingFile name => "configuration file \"" ++ name ++ "\" not found"
  | .malformed name => "TOML parse error in " ++ name
  | .wrongKind found expected path origin =>
    "invalid type: " ++ found ++ ", expected " ++ expected ++ " for key \x60" ++
      ".".intercalate path ++ "\x60" ++ (match origin with
        | some name => " in " ++ name
        | none => "")
  | .missingMember name => "missing field \x60" ++ name ++ "\x60"

/-! ### Layers -/

/-- A file that may contribute to a configuration. -/
structure Layer where
  name : String
  /-- The content of the file, if it exists. -/
  content : Option (List UInt8)
  isRequired : Bool

/-- The text of a file, without the mark of the byte order. -/
def textOf (content : List UInt8) : List Char :=
  match Utf8.decodeLossy content with
  | '\uFEFF' :: s => s
  | s => s

/-- The table of a layer; a file that may be missing and is stands for an empty one. -/
def Layer.members? (l : Layer) : Except Fault Members :=
  match l.content with
  | none => if l.isRequired then .error (.missingFile l.name) else .ok []
  | some content =>
    match Toml.parse? (textOf content) with
    | none => .error (.malformed l.name)
    | some v => .ok v.members

/-- A name in the form in which names are compared. -/
def normalizeName (name : String) : String :=
  String.ofList (Text.toLower name.toList)

mutual

/-- A value after a layer has set it.  Tables are merged, everything else is replaced. -/
def merge (old : Option Value) : Value → Value
  | .table members => mergeMembers (old.getD (.table [])) members
  | v => v

/-- A value after a layer has set some of its members; a value that is no table becomes one. -/
def mergeMembers (old : Value) : List (String × Value) → Value
  | [] => old
  | (name, v) :: rest =>
    let key := normalizeName name
    mergeMembers (.table (Members.set key (merge (old.get? key) v) old.members)) rest

end

/-- Whether a character may stand in a name of a path. -/
def isPathChar (c : Char) : Bool :=
  c.isAlphanum || c == ' ' || c == '_' || c == '-'

/-- The names that a name at the top stands for. -/
def pathOf (name : String) : List String :=
  let names := Text.splitOn '.' name.toList
  if names.all fun n => !n.isEmpty && n.all isPathChar then names.map String.ofList else [name]

/-- A value as the only member inside tables inside one another. -/
def nest (v : Value) : List String → Value
  | [] => v
  | name :: path => .table [(name, nest v path)]

/-- The table after a layer. -/
def addLayer (old : Value) (members : Members) : Value :=
  members.foldl (fun old (name, v) => merge (some old) (nest v (pathOf name))) old

/-- The built-in configuration. -/
def defaults : Value :=
  .table [
    ("logging", .table [("filter", .string "docmorph=warn")]),
    ("markdown", .table [("wrap_width", .integer 0)]),
    ("latex", .table [("standalone", .bool false)]),
    ("docx", .table [("code_font", .string Docx.Options.standard.codeFont),
      ("link_color", .string Docx.Options.standard.linkColor)])]

/-! ### Conversions -/

/-- A value in the words of a fault. -/
def describe : Value → String
  | .string s => "string " ++ quote s
  | .date s => "string " ++ quote s
  | .integer n => "integer \x60" ++ toString n ++ "\x60"
  | .real x => "floating point \x60" ++ realText x ++ "\x60"
  | .infinity negative => "floating point \x60" ++ (if negative then "-inf" else "inf") ++ "\x60"
  | .notNumber => "floating point \x60NaN\x60"
  | .bool b => "boolean \x60" ++ (if b then "true" else "false") ++ "\x60"
  | .array _ => "sequence"
  | .table _ => "map"
where
  /-- A text in quotes. -/
  quote (s : String) : String :=
    "\"" ++ String.ofList (s.toList.flatMap quoteChar) ++ "\""
  /-- A character in quotes. -/
  quoteChar (c : Char) : List Char :=
    match c with
    | '"' => ['\\', '"']
    | '\\' => ['\\', '\\']
    | '\n' => ['\\', 'n']
    | '\r' => ['\\', 'r']
    | '\t' => ['\\', 't']
    | '\x00' => ['\\', '0']
    | c =>
      if c.toNat < 0x20 || c.toNat = 0x7f then
        "\\u\x7b".toList ++ Nat.toDigits 16 c.toNat ++ ['\x7d']
      else [c]
  /-- A number with its shortest digits and no exponent. -/
  realText (x : Binary64) : String :=
    let (k, e) := if x.significand = 0 then (0, 0) else x.shortest
    let digits := Nat.toDigits 10 k
    let text :=
      if 0 ≤ e then digits ++ List.replicate e.natAbs '0'
      else
        let padded := List.replicate (e.natAbs + 1 - digits.length) '0' ++ digits
        padded.take (padded.length - e.natAbs) ++ '.' :: padded.drop (padded.length - e.natAbs)
    String.ofList (if x.negative then '-' :: text else text)

/-- The truth value that a word stands for. -/
def truthOfWord? (s : String) : Option Bool :=
  let word := normalizeName s
  if ["1", "true", "on", "yes"].contains word then some true
  else if ["0", "false", "off", "no"].contains word then some false
  else none

/-- A value as a truth value. -/
def truth? (path : List String) (v : Value) : Except Fault Bool :=
  let refuse : Except Fault Bool := .error (.wrongKind (describe v) "a boolean" path none)
  match v with
  | .bool b => .ok b
  | .integer n => .ok (n != 0)
  | .real x => .ok (x.significand != 0)
  | .infinity _ => .ok true
  | .notNumber => .ok true
  | .string s => match truthOfWord? s with
    | some b => .ok b
    | none => refuse
  | _ => refuse

/-- The number that a text of digits stands for, if it fits into 64 bits.  A plus sign may precede
them. -/
def countOfText? (s : List Char) : Option Nat :=
  let digits := match s with
    | '+' :: rest => rest
    | _ => s
  let n := digits.foldl (fun n c => 10 * n + (c.toNat - '0'.toNat)) 0
  if !digits.isEmpty && digits.all Char.isDigit && n < Nat.pow 2 64 then some n else none

/-- The natural number nearest to a number; a half is rounded up, and what is beyond 64 bits becomes
the nearest number of 64 bits. -/
def roundToCount (x : Binary64) : Nat :=
  if x.negative then 0
  else
    let (n, d) := x.toRatio
    min ((2 * n + d) / (2 * d)) (Nat.pow 2 64 - 1)

/-- A value as a number without sign. -/
def count? (path : List String) (v : Value) : Except Fault Nat :=
  let refuse (expected : String) : Except Fault Nat :=
    .error (.wrongKind (describe v) expected path none)
  match v with
  | .integer (.ofNat n) => .ok n
  | .integer _ => refuse "an unsigned 64 bit or less integer"
  | .bool b => .ok (if b then 1 else 0)
  | .real x => .ok (roundToCount x)
  | .infinity negative => .ok (if negative then 0 else Nat.pow 2 64 - 1)
  | .notNumber => .ok 0
  | .string s =>
    let word := normalizeName s
    if ["true", "on", "yes"].contains word then .ok 1
    else if ["false", "off", "no"].contains word then .ok 0
    else match countOfText? s.toList with
      | some n => .ok n
      | none => refuse "an integer"
  | _ => refuse "an integer"

/-- A value as a text. -/
def text? (path : List String) (v : Value) : Except Fault String :=
  match v with
  | .string s => .ok s
  | .date s => .ok s
  | .bool b => .ok (if b then "true" else "false")
  | .integer n => .ok (toString n)
  | .real x => .ok (describe.realText x)
  | .infinity negative => .ok (if negative then "-inf" else "inf")
  | .notNumber => .ok "NaN"
  | _ => .error (.wrongKind (describe v) "a string" path none)

/-! ### Sections -/

/-- The members of a section by their names.  A sequence gives them in order and may be too short.
-/
def sectionMembers (title name : String) (names : List String) (root : Value) :
    Except Fault (List (Option Value)) :=
  match root.get? name with
  | none => .error (.missingMember name)
  | some (.table members) => .ok (names.map fun n => members.lookup n)
  | some (.array items) => .ok (names.mapIdx fun i _ => items[i]?)
  | some v => .error (.wrongKind (describe v) ("struct " ++ title) [name] none)

/-- A member of a section, converted; if it is missing, its standard value. -/
def member {α : Type} (convert : List String → Value → Except Fault α) (path : List String)
    (standard : α) (members : List (Option Value)) (index : Nat) : Except Fault α :=
  match members[index]? with
  | some (some v) => convert path v
  | _ => .ok standard

/-- The configuration that a table describes. -/
def ofValue? (root : Value) : Except Fault Configuration := do
  let logging ← sectionMembers "LoggingConfig" "logging" ["filter"] root
  let logFilter ← match logging with
    | [some v] => text? ["logging", "filter"] v
    | _ => .error (.missingMember "filter")
  let markdown ← sectionMembers "MarkdownOptions" "markdown" ["wrap_width"] root
  let wrapWidth ← member count? ["markdown", "wrap_width"] 0 markdown 0
  let latex ← sectionMembers "LatexOptions" "latex" ["standalone"] root
  let standalone ← member truth? ["latex", "standalone"] false latex 0
  let docx ← sectionMembers "DocxOptions" "docx" ["code_font", "link_color"] root
  let standard := Docx.Options.standard
  let codeFont ← member text? ["docx", "code_font"] standard.codeFont docx 0
  let linkColor ← member text? ["docx", "link_color"] standard.linkColor docx 1
  return ⟨logFilter, ⟨wrapWidth⟩, ⟨standalone⟩, ⟨codeFont, linkColor⟩⟩

/-- The value that a path leads to. -/
def follow? (v : Value) : List String → Option Value
  | [] => some v
  | name :: path => (v.get? name).bind fun w => follow? w path

/-- The last of some named tables that sets what a path leads to. -/
def originOf? (tables : List (String × Members)) (path : List String) : Option String :=
  let sets (table : String × Members) : Bool :=
    (follow? (addLayer (.table []) table.2) path).isSome
  (tables.reverse.find? sets).map Prod.fst

/-- A fault that says which layer set the value. -/
def Fault.addOrigin (tables : List (String × Members)) : Fault → Fault
  | .wrongKind found expected path _ => .wrongKind found expected path (originOf? tables path)
  | fault => fault

/-- The configuration that layers make over the built-in one. -/
def ofLayers? (layers : List Layer) : Except Fault Configuration := do
  let tables ← layers.mapM fun l => do return (l.name, ← l.members?)
  match ofValue? ((tables.map Prod.snd).foldl addLayer defaults) with
  | .ok c => return c
  | .error fault => throw (fault.addOrigin tables)

end Configuration

end Interdoc

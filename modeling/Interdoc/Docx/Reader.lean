import Interdoc.Docx.Rendering
import Interdoc.Html.Parser

/-!
# Reading packages

A package is read as the HTML that it is rendered to.  If there is nothing in it, the bare text of
the package is used, which also holds what the rendering leaves out.  `ContainerReader` is any other
way to get the two; `parse?` is what `packageReader` reads.
-/

namespace Interdoc.Docx

/-! ### Containers -/

/-- A way to look into containers: the HTML that a container is rendered to, and its bare text.
Either can fail. -/
structure ContainerReader (ε : Type) where
  html : Zip.Bytes → Except ε (List Char)
  rawText : Zip.Bytes → Except ε (List Char)

/-- The document in a container.  The bare text is only looked at if the rendering holds nothing. -/
def ContainerReader.read {ε : Type} (r : ContainerReader ε) (bytes : Zip.Bytes) :
    Except ε Document :=
  match r.html bytes with
  | .error e => .error e
  | .ok html =>
    let d := Html.readDocument html
    if d.blocks.isEmpty then
      match r.rawText bytes with
      | .error e => .error e
      | .ok text => .ok (plainDocument text)
    else .ok d

/-- The reader of packages. -/
def packageReader : ContainerReader Fault where
  html bytes := (Package.open? bytes).map Package.html
  rawText bytes := (Package.open? bytes).map Package.rawText

/-! ### Packages -/

/-- The document for a rendering and the bare text of a package. -/
def documentOf (html text : List Char) : Document :=
  let d := Html.readDocument html
  if d.blocks.isEmpty then plainDocument text else d

/-- The document in a package. -/
def Package.toDocument (p : Package) : Document :=
  documentOf p.html p.rawText

/-- The document in a sequence of octets. -/
def parse? (bytes : Zip.Bytes) : Except Fault Document :=
  match Package.open? bytes with
  | .error e => .error e
  | .ok p => .ok p.toDocument

theorem packageReader_read (bytes : Zip.Bytes) : packageReader.read bytes = parse? bytes := by
  rw [ContainerReader.read, parse?]
  cases hp : Package.open? bytes with
  | error e => simp only [packageReader, hp, Except.map]
  | ok p =>
    simp only [packageReader, hp, Except.map, Package.toDocument, documentOf]
    split <;> rfl

end Interdoc.Docx

import Interdoc.Proofs.Docx.Numbering
import Interdoc.Proofs.Text.Utf8
import Interdoc.Proofs.Xml.Printing
import Interdoc.Proofs.Zip.Archive

/-!
# Written packages are opened

The octets that a document is written to are opened as the package with its layout in it
(`open?_write`): the archive gives back its parts, the octets of a part its text, and the text the
tree that its markup means.  An archive has 32 bits for positions in it, which bounds its length.
-/

namespace Interdoc.Docx

open Interdoc (Alignment)
open Xml (Markup Writable writable_leaf writable_group writable_textElement areWritable_of_names)

/-! ### Runs -/

theorem writable_option {α : Type} {f : α → Markup} (h : ∀ a, Writable (f a)) (value : Option α) :
    ∀ m ∈ (value.map f).toList, Writable m := by
  cases value with
  | none => exact List.forall_mem_nil _
  | some a => exact List.forall_mem_singleton.mpr (h a)

theorem writable_valued {name : String} (h : Xml.AreNames name ["w:val"]) (value : Option String) :
    ∀ m ∈ RunProperties.valued name value, Writable m := by
  cases value with
  | none => exact List.forall_mem_nil _
  | some v => exact List.forall_mem_singleton.mpr (writable_leaf _ h rfl)

theorem writable_switch {name : String} (h : Xml.AreNames name []) (isOn : Bool) :
    ∀ m ∈ RunProperties.switch name isOn, Writable m := by
  cases isOn with
  | false => exact List.forall_mem_nil _
  | true => exact List.forall_mem_singleton.mpr (writable_leaf _ h rfl)

theorem RunProperties.writable {p : RunProperties} (h : p.HasPlainColor) : Writable p.markup := by
  have hcolor : ∀ m ∈ (p.color.map fun c =>
      Markup.element "w:color" [("w:val", c.toList)] []).toList, Writable m := by
    cases hc : p.color with
    | none => exact List.forall_mem_nil _
    | some c =>
      have hnames : Xml.AreNames "w:color" ["w:val"] := by decide
      exact List.forall_mem_singleton.mpr (.element hnames.1
        (areWritable_of_names hnames (List.forall_mem_singleton.mpr (h c hc).2))
        (List.forall_mem_nil _))
  have hfont : ∀ f, Writable (fontMarkup f) := fun f =>
    writable_leaf ["w:ascii", "w:hAnsi", "w:cs", "w:eastAsia"] (by decide) rfl
  refine writable_group (by decide) ?_
  simp only [List.forall_mem_append]
  exact ⟨⟨⟨⟨⟨⟨⟨⟨⟨writable_valued (by decide) _, writable_valued (by decide) _⟩,
    hcolor⟩, writable_switch (by decide) _⟩, writable_switch (by decide) _⟩,
    writable_switch (by decide) _⟩, writable_switch (by decide) _⟩,
    writable_valued (by decide) _⟩, writable_option hfont _⟩,
    writable_valued (by decide) _⟩

theorem WrittenRun.writable {r : WrittenRun} (h : r.properties.HasPlainColor) :
    Writable r.markup := by
  refine writable_group (by decide) (List.forall_mem_cons.mpr
    ⟨RunProperties.writable h, List.forall_mem_singleton.mpr ?_⟩)
  cases r.content with
  | text s =>
    exact writable_textElement (by decide)
      (List.forall_mem_singleton.mpr (by decide)) _
  | lineBreak => exact writable_leaf ["w:type"] (by decide) rfl

/-! ### Paragraphs -/

theorem writable_runs {runs : List WrittenRun} (h : ∀ r ∈ runs, r.properties.HasPlainColor) :
    ∀ m ∈ runs.map WrittenRun.markup, Writable m :=
  List.forall_mem_map.mpr fun r hr => WrittenRun.writable (h r hr)

theorem writable_parts (next : Nat) {parts : List ParagraphPart}
    (h : ∀ part ∈ parts, ∀ r ∈ part.runs, r.properties.HasPlainColor) :
    ∀ m ∈ partsMarkup next parts, Writable m := by
  induction parts generalizing next with
  | nil => exact List.forall_mem_nil _
  | cons part parts ih =>
    rw [List.forall_mem_cons] at h
    cases part with
    | run r =>
      exact List.forall_mem_cons.mpr
        ⟨WrittenRun.writable (h.1 r List.mem_cons_self), ih next h.2⟩
    | hyperlink target runs =>
      have hnames : Xml.AreNames "w:hyperlink" ["r:id", "w:history"] := by decide
      have hvalues : ∀ a ∈ [("r:id", (linkId next).toList), ("w:history", ['1'])], '"' ∉ a.2 :=
        List.forall_mem_cons.mpr ⟨not_mem_linkId (by decide) next,
          List.forall_mem_singleton.mpr (by decide)⟩
      exact List.forall_mem_cons.mpr
        ⟨.element hnames.1 (areWritable_of_names hnames hvalues) (writable_runs h.1),
          ih (next + 1) h.2⟩

theorem ListPlace.writable (p : ListPlace) : Writable p.markup :=
  writable_group (by decide) (List.forall_mem_cons.mpr
    ⟨writable_leaf ["w:val"] (by decide) rfl,
      List.forall_mem_singleton.mpr (writable_leaf ["w:val"] (by decide) rfl)⟩)

theorem WrittenParagraph.writable (next : Nat) {p : WrittenParagraph} (h : p.HasPlainColors) :
    Writable (p.markup next) := by
  have hstyle : ∀ s, Writable (.leaf "w:pStyle" [("w:val", s)]) := fun s =>
    writable_leaf ["w:val"] (by decide) rfl
  have halignment : ∀ a : Alignment, Writable (.leaf "w:jc" [("w:val", a.name)]) := fun a =>
    writable_leaf ["w:val"] (by decide) rfl
  refine writable_group (by decide) (List.forall_mem_cons.mpr
    ⟨writable_group (by decide) ?_, writable_parts next h⟩)
  simp only [List.forall_mem_append, List.forall_mem_cons]
  exact ⟨⟨⟨writable_group (by decide) (List.forall_mem_nil _), writable_option hstyle _⟩,
    writable_option ListPlace.writable _⟩, writable_option halignment _⟩

/-! ### Bodies -/

/-- The colours of all runs of an item are plain. -/
def LayoutItem.HasPlainColors : LayoutItem → Prop
  | .paragraph p => p.HasPlainColors
  | .table rows => ∀ row ∈ rows, ∀ cell ∈ row, ∀ p ∈ cell, p.HasPlainColors

theorem LayoutItem.IsPlain.hasPlainColors {item : LayoutItem} (h : item.IsPlain) :
    item.HasPlainColors := by
  cases item with
  | paragraph p => exact WrittenParagraph.IsPlain.hasPlainColors h
  | table rows =>
    exact fun row hrow cell hcell p hp =>
      WrittenParagraph.IsPlain.hasPlainColors (h row hrow cell hcell p hp)

section

variable {cell : List WrittenParagraph} {row : List (List WrittenParagraph)}
  {rows : List (List (List WrittenParagraph))}

theorem writable_paragraphs (next : Nat) (h : ∀ p ∈ cell, p.HasPlainColors) :
    ∀ m ∈ paragraphsMarkup next cell, Writable m := by
  induction cell generalizing next with
  | nil => exact List.forall_mem_nil _
  | cons p cell ih =>
    rw [List.forall_mem_cons] at h
    exact List.forall_mem_cons.mpr ⟨WrittenParagraph.writable next h.1, ih _ h.2⟩

theorem writable_empty {name : String} (h : Xml.AreNames name []) : Writable (.group name []) :=
  writable_group h (List.forall_mem_nil _)

theorem writable_cells (next : Nat) (h : ∀ cell ∈ row, ∀ p ∈ cell, p.HasPlainColors) :
    ∀ m ∈ cellsMarkup next row, Writable m := by
  induction row generalizing next with
  | nil => exact List.forall_mem_nil _
  | cons cell row ih =>
    rw [List.forall_mem_cons] at h
    exact List.forall_mem_cons.mpr ⟨writable_group (by decide) (List.forall_mem_cons.mpr
      ⟨writable_empty (by decide), writable_paragraphs next h.1⟩), ih _ h.2⟩

theorem writable_rows (next : Nat) (h : ∀ row ∈ rows, ∀ cell ∈ row, ∀ p ∈ cell, p.HasPlainColors) :
    ∀ m ∈ rowsMarkup next rows, Writable m := by
  induction rows generalizing next with
  | nil => exact List.forall_mem_nil _
  | cons row rows ih =>
    rw [List.forall_mem_cons] at h
    exact List.forall_mem_cons.mpr ⟨writable_group (by decide) (List.forall_mem_cons.mpr
      ⟨writable_empty (by decide), writable_cells next h.1⟩), ih _ h.2⟩

end

theorem writable_tableProperties : Writable tableProperties := by
  have hborder : ∀ side ∈ ["top", "left", "bottom", "right", "insideH", "insideV"],
      Xml.AreNames ("w:" ++ side) ["w:val", "w:sz", "w:space", "w:color"] := by decide
  refine writable_group (by decide) ?_
  simp only [List.forall_mem_cons]
  refine ⟨writable_leaf ["w:w", "w:type"] (by decide) rfl,
    writable_leaf ["w:val"] (by decide) rfl,
    writable_group (by decide) (List.forall_mem_map.mpr fun side hside =>
      writable_leaf _ (hborder side hside) rfl), List.forall_mem_nil _⟩

theorem LayoutItem.writable (next : Nat) {item : LayoutItem} (h : item.HasPlainColors) :
    Writable (item.markup next) := by
  cases item with
  | paragraph p => exact WrittenParagraph.writable next h
  | table rows =>
    exact writable_group (by decide) (List.forall_mem_cons.mpr
      ⟨writable_tableProperties, List.forall_mem_cons.mpr
        ⟨writable_empty (by decide), writable_rows next h⟩⟩)

theorem writable_items (next : Nat) {items : List LayoutItem}
    (h : ∀ item ∈ items, item.HasPlainColors) : ∀ m ∈ itemsMarkup next items, Writable m := by
  induction items generalizing next with
  | nil => exact List.forall_mem_nil _
  | cons item items ih =>
    rw [List.forall_mem_cons] at h
    exact List.forall_mem_cons.mpr ⟨LayoutItem.writable next h.1, ih _ h.2⟩

/-! ### Numbering -/

/-- An element with one attribute, which is a number. -/
theorem writable_numbered {name key : String} (h : Xml.AreNames name [key]) (n : Nat)
    {children : List Markup} (hchildren : ∀ m ∈ children, Writable m) :
    Writable (.element name [(key, (toString n).toList)] children) :=
  .element h.1 (areWritable_of_names h (List.forall_mem_singleton.mpr
    (not_mem_toString (by decide) n))) hchildren

theorem writable_indent (left hanging : Nat) : Writable (indentMarkup left (some hanging)) :=
  writable_leaf ["w:left", "w:right", "w:hanging"] (by decide) rfl

theorem writable_level (ordered : Bool) (level : Nat) : Writable (levelMarkup ordered level) := by
  refine writable_numbered (by decide) level ?_
  simp only [List.forall_mem_cons]
  exact ⟨writable_leaf ["w:val"] (by decide) rfl,
    writable_leaf ["w:val"] (by decide) rfl,
    writable_leaf ["w:val"] (by decide) rfl,
    writable_leaf ["w:val"] (by decide) rfl,
    writable_group (by decide) (List.forall_mem_cons.mpr
      ⟨writable_empty (by decide), List.forall_mem_singleton.mpr (writable_indent _ _)⟩),
    writable_empty (by decide), List.forall_mem_nil _⟩

theorem writable_definition (number : Nat) (ordered : Bool) :
    Writable (definitionMarkup number ordered) :=
  writable_numbered (by decide) number
    (List.forall_mem_map.mpr fun level _ => writable_level ordered level)

theorem writable_number (number : Nat) : Writable (numberMarkup number) :=
  writable_numbered (by decide) number (List.forall_mem_singleton.mpr
    (writable_leaf ["w:val"] (by decide) rfl))

/-! ### Parts -/

namespace Layout

variable {l : Layout}

theorem writable_document (h : ∀ item ∈ l.items, item.HasPlainColors) :
    Writable l.documentMarkup := by
  have hnames : Xml.AreNames "w:document" ["xmlns:w", "xmlns:r"] := by decide
  refine .element hnames.1 (areWritable_of_names hnames (by decide))
    (List.forall_mem_singleton.mpr (writable_group (by decide) ?_))
  exact List.forall_mem_append.mpr ⟨writable_items 1 h,
    List.forall_mem_singleton.mpr (writable_empty (by decide))⟩

theorem writable_relationships (l : Layout) : Writable l.relationshipsMarkup := by
  have hnames : Xml.AreNames "Relationships" ["xmlns"] := by decide
  exact .element hnames.1 (areWritable_of_names hnames (by decide))
    (List.forall_mem_map.mpr fun target _ =>
      writable_leaf ["Id", "Type", "Target", "TargetMode"] (by decide) rfl)

theorem writable_numbering (l : Layout) : Writable l.numberingPartMarkup := by
  have hnames : Xml.AreNames "w:numbering" ["xmlns:w"] := by decide
  exact .element hnames.1 (areWritable_of_names hnames (by decide))
    (List.forall_mem_append.mpr ⟨List.forall_mem_map.mpr fun list _ => writable_definition _ _,
      List.forall_mem_map.mpr fun number _ => writable_number number⟩)

end Layout

/-! ### Archives -/

/-- The names of the parts of a package, and of its folders. -/
def partNames : List String :=
  ["word/", "word/_rels/", "_rels/", "docProps/", "[Content_Types].xml", "_rels/.rels",
    Package.documentPart, Package.relationshipsPart, Package.numberingPart, "word/styles.xml"]

/-- The texts of the parts of a package. -/
def partTexts (o : Options) (l : Layout) : List (List Char) :=
  [[], [], [], [], ContentTypes.markup.printDocument, packageRelationshipsMarkup.printDocument,
    l.documentMarkup.printDocument, l.relationshipsMarkup.printDocument,
    l.numberingPartMarkup.printDocument, (stylesMarkup o).printDocument]

/-- A text in a file. -/
def textFile (part : String × List Char) : Zip.File :=
  ⟨Utf8.encode part.1.toList, Utf8.encode part.2⟩

/-- The parts of the package for a layout. -/
def packageParts (o : Options) (l : Layout) : List (String × List Char) :=
  partNames.zip (partTexts o l)

theorem write_eq (o : Options) (d : Document) :
    write o d = Zip.encode ((packageParts o (Document.layout o d)).map textFile) :=
  rfl

theorem fits_packageParts {o : Options} {l : Layout}
    (h : (Zip.encode ((packageParts o l).map textFile)).length < 2 ^ 32) :
    Zip.Fits ((packageParts o l).map textFile) := by
  have hnames : ∀ name ∈ partNames, (Utf8.encode name.toList).length < 256 ^ 2 := by
    decide
  refine ⟨by simp [packageParts, partNames, partTexts], fun f hf => ?_, h⟩
  obtain ⟨part, hpart, rfl⟩ := List.mem_map.mp hf
  exact hnames part.1 (List.of_mem_zip hpart).1

theorem encode_inj {s t : List Char} : Utf8.encode s = Utf8.encode t ↔ s = t := by
  refine ⟨fun h => ?_, congrArg _⟩
  have hdecode := congrArg Utf8.decode? h
  rw [Utf8.decode?_encode, Utf8.decode?_encode] at hdecode
  exact Except.ok.inj hdecode

theorem find?_textFile (parts : List (String × List Char)) (name : String) :
    ((parts.map textFile).reverse.find? (·.name == Utf8.encode name.toList)).map Zip.File.content =
      (parts.reverse.find? (·.1 == name)).map fun part => Utf8.encode part.2 := by
  have hname : (fun f : Zip.File => f.name == Utf8.encode name.toList) ∘ textFile =
      (·.1 == name) := by
    funext part
    rw [Bool.eq_iff_iff, Function.comp_apply, beq_iff_eq, beq_iff_eq, textFile, encode_inj,
      String.toList_inj]
  rw [← List.map_reverse, List.find?_map, hname, Option.map_map]
  rfl

/-- A part of an archive whose file is there. -/
theorem part?_eq {archive : Zip.Archive} {name : String} {m : Markup} {n : Xml.Node}
    (hfile : archive.find? (Utf8.encode name.toList) = .ok (some (Utf8.encode m.printDocument)))
    (h : Writable m) (hn : m.node? = .ok n) : Package.part? archive name = .ok (some n) := by
  simp only [Package.part?, hfile, Utf8.decode?_encode, Xml.parse?_printDocument h hn]

/-- The text of each part that a reader looks at is found by its name. -/
theorem find?_packageParts (o : Options) (l : Layout) :
    ((packageParts o l).reverse.find? (·.1 == Package.documentPart) =
        some (Package.documentPart, l.documentMarkup.printDocument)) ∧
      ((packageParts o l).reverse.find? (·.1 == Package.relationshipsPart) =
        some (Package.relationshipsPart, l.relationshipsMarkup.printDocument)) ∧
      ((packageParts o l).reverse.find? (·.1 == Package.numberingPart) =
        some (Package.numberingPart, l.numberingPartMarkup.printDocument)) := by
  simp [packageParts, partNames, partTexts, Package.documentPart, Package.relationshipsPart,
    Package.numberingPart]

/-- The trees of the parts of a package. -/
theorem Layout.exists_of_package?_eq {l : Layout} {p : Package} (h : l.package? = .ok p) :
    ∃ relationships numbering, l.documentMarkup.node? = .ok p.document ∧
      l.relationshipsMarkup.node? = .ok relationships ∧
      l.numberingPartMarkup.node? = .ok numbering ∧
      p = ⟨p.document, Package.relationshipsOf relationships, Package.numberingOf numbering⟩ := by
  rw [package?] at h
  cases hd : l.documentMarkup.node? with
  | error e => rw [hd] at h; cases h
  | ok document =>
    cases hr : l.relationshipsMarkup.node? with
    | error e => rw [hd, hr] at h; cases h
    | ok relationships =>
      cases hn : l.numberingPartMarkup.node? with
      | error e => rw [hd, hr, hn] at h; cases h
      | ok numbering =>
        rw [hd, hr, hn] at h
        obtain rfl := Except.ok.inj h
        exact ⟨relationships, numbering, rfl, rfl, rfl, rfl⟩

/-- **The package in the written octets** is the one with the layout of the document. -/
theorem open?_write {o : Options} {d : Document} {p : Package}
    (h : ∀ item ∈ (Document.layout o d).items, item.HasPlainColors)
    (hp : (Document.layout o d).package? = .ok p) (hsize : (write o d).length < 2 ^ 32) :
    Package.open? (write o d) = .ok p := by
  rw [write_eq] at hsize ⊢
  generalize Document.layout o d = l at h hp hsize ⊢
  obtain ⟨archive, hopen, hfind⟩ := Zip.exists_open?_encode (fits_packageParts hsize)
  have hpart {name : String} {m : Markup} {n : Xml.Node}
      (hname : (packageParts o l).reverse.find? (·.1 == name) = some (name, m.printDocument))
      (hm : Writable m) (hn : m.node? = .ok n) : Package.part? archive name = .ok (some n) := by
    refine part?_eq ?_ hm hn
    rw [hfind, find?_textFile, hname]
    rfl
  obtain ⟨hdocument, hrelationships, hnumbering⟩ := find?_packageParts o l
  obtain ⟨relationships, numbering, hd, hr, hn, hpackage⟩ := l.exists_of_package?_eq hp
  rw [Package.open?, hopen]
  simp only [Package.ofArchive, hpart hdocument (Layout.writable_document h) hd,
    hpart hrelationships l.writable_relationships hr, hpart hnumbering l.writable_numbering hn]
  rw [hpackage]
  rfl

end Interdoc.Docx

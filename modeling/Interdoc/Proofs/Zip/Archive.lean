import Interdoc.Zip.Archive
import Mathlib.Algebra.Group.Nat.Defs
import Mathlib.Data.List.Basic

/-!
# Written archives are opened

What `encode` makes of files is opened as an archive that holds exactly these files
(`exists_open?_encode`); of two files of one name it gives the last.

All records are sequences of numbers of fixed widths (`fields`), so that what a reader finds at an
offset is the number behind the numbers whose widths add up to it (`numberAt_fields`).  No checksum
is ever computed: the reader's is that of the same content.
-/

namespace Interdoc.Zip

/-! ### Numbers -/

@[simp] theorem length_littleEndian (width n : Nat) : (littleEndian width n).length = width := by
  induction width generalizing n with
  | zero => rfl
  | succ width ih => rw [littleEndian, List.length_cons, ih]

theorem ofLittleEndian_littleEndian {width n : Nat} (h : n < 256 ^ width) :
    ofLittleEndian (littleEndian width n) = n := by
  induction width generalizing n with
  | zero =>
    rw [Nat.pow_zero, Nat.lt_one_iff] at h
    rw [h]
    rfl
  | succ width ih =>
    have hoctet : n.toUInt8.toNat = n % 256 := UInt8.toNat_ofNat'
    have hrest : n / 256 < 256 ^ width :=
      Nat.div_lt_of_lt_mul (by rwa [← Nat.pow_succ'])
    rw [littleEndian, ofLittleEndian, ih hrest, hoctet, Nat.mod_add_div]

/-- Numbers of the given widths, one after the other. -/
def fields (values : List (Nat × Nat)) : Bytes :=
  values.flatMap fun v => littleEndian v.1 v.2

/-- The number of octets of fields. -/
def widthOf : List (Nat × Nat) → Nat
  | [] => 0
  | v :: values => v.1 + widthOf values

@[simp] theorem length_fields (values : List (Nat × Nat)) :
    (fields values).length = widthOf values := by
  induction values with
  | nil => rfl
  | cons v values ih =>
    rw [fields, List.flatMap_cons, List.length_append, length_littleEndian, widthOf, ← ih]
    rfl

theorem fields_cons (v : Nat × Nat) (values : List (Nat × Nat)) (rest : Bytes) :
    fields (v :: values) ++ rest = littleEndian v.1 v.2 ++ (fields values ++ rest) := by
  rw [fields, List.flatMap_cons, List.append_assoc]
  rfl

/-- The first field. -/
theorem numberAt_head {width n : Nat} (h : n < 256 ^ width) (values : List (Nat × Nat))
    (rest : Bytes) : numberAt (fields ((width, n) :: values) ++ rest) 0 width = n := by
  rw [fields_cons, numberAt, List.drop_zero, List.take_left' (length_littleEndian width n),
    ofLittleEndian_littleEndian h]

/-- **A field is found behind the fields before it.** -/
theorem numberAt_skip {width offset : Nat} (h : width ≤ offset) (n length : Nat)
    (values : List (Nat × Nat)) (rest : Bytes) :
    numberAt (fields ((width, n) :: values) ++ rest) offset length =
      numberAt (fields values ++ rest) (offset - width) length := by
  have hdrop : (littleEndian width n).drop offset = [] :=
    List.drop_eq_nil_of_le (by rwa [length_littleEndian])
  rw [fields_cons, numberAt, numberAt, List.drop_append, hdrop, length_littleEndian,
    List.nil_append]

/-! ### Records -/

/-- The fields of a file that its header and its directory entry share. -/
def File.commonFields (f : File) : List (Nat × Nat) :=
  [(2, 0x800), (2, 0), (2, 0), (2, 0x21), (4, (checksum f.content).toNat),
    (4, f.content.length), (4, f.content.length), (2, f.name.length), (2, 0)]

/-- The fields of the header of a file. -/
def File.headerFields (f : File) : List (Nat × Nat) :=
  (4, fileMark) :: (2, 20) :: f.commonFields

/-- The fields of the directory entry of a file at a position. -/
def File.entryFields (f : File) (position : Nat) : List (Nat × Nat) :=
  (4, entryMark) :: (2, 20) :: (2, 20) :: f.commonFields ++
    [(2, 0), (2, 0), (2, 0), (4, 0), (4, position)]

/-- The fields of the record at the end. -/
def endFields (count size start : Nat) : List (Nat × Nat) :=
  [(4, endMark), (2, 0), (2, 0), (2, count), (2, count), (4, size), (4, start), (2, 0)]

theorem encode_file (f : File) : f.encode = fields f.headerFields ++ (f.name ++ f.content) := by
  simp [File.encode, File.commonHeader, File.headerFields, File.commonFields, fields]

theorem entry_eq (f : File) (position : Nat) :
    f.entry position = fields (f.entryFields position) ++ f.name := by
  simp [File.entry, File.commonHeader, File.entryFields, File.commonFields, fields]

theorem encode_eq (files : List File) :
    encode files = files.flatMap File.encode ++ (directory 0 files ++
      fields (endFields files.length (directory 0 files).length
        (files.flatMap File.encode).length)) := by
  simp [encode, endFields, fields]

theorem widthOf_headerFields (f : File) : widthOf f.headerFields = 30 := by
  simp [widthOf, File.headerFields, File.commonFields]

theorem widthOf_entryFields (f : File) (position : Nat) :
    widthOf (f.entryFields position) = 46 := by
  simp [widthOf, File.entryFields, File.commonFields]

theorem widthOf_endFields (count size start : Nat) : widthOf (endFields count size start) = 22 := by
  simp [widthOf, endFields]

theorem length_encode_file (f : File) :
    f.encode.length = 30 + f.name.length + f.content.length := by
  rw [encode_file, List.length_append, length_fields, widthOf_headerFields, List.length_append,
    Nat.add_assoc]

theorem length_entry (f : File) (position : Nat) :
    (f.entry position).length = 46 + f.name.length := by
  rw [entry_eq, List.length_append, length_fields, widthOf_entryFields]

/-! ### Sizes -/

/-- Files that an archive has room for: the numbers in its records hold all that they are to say. -/
structure Fits (files : List File) : Prop where
  count : files.length < 256 ^ 2
  names : ∀ f ∈ files, f.name.length < 256 ^ 2
  size : (encode files).length < 256 ^ 4

theorem length_content_le {f : File} {files : List File} (h : f ∈ files) :
    f.content.length ≤ (files.flatMap File.encode).length := by
  obtain ⟨before, after, rfl⟩ := List.append_of_mem h
  simp only [List.flatMap_append, List.flatMap_cons, List.length_append, length_encode_file]
  omega

theorem length_encode (files : List File) :
    (encode files).length =
      (files.flatMap File.encode).length + (directory 0 files).length + 22 := by
  rw [encode_eq, List.length_append, List.length_append, length_fields, widthOf_endFields,
    Nat.add_assoc]

theorem Fits.content {files : List File} (h : Fits files) {f : File} (hf : f ∈ files) :
    f.content.length < 256 ^ 4 := by
  have hsize := h.size
  have hcontent := length_content_le hf
  rw [length_encode] at hsize
  omega

theorem checksum_lt (content : Bytes) : (checksum content).toNat < 256 ^ 4 :=
  (checksum content).toNat_lt

/-! ### The directory -/

/-- The entry that the directory entry of a file at a position is read as. -/
def File.entryAt (f : File) (position : Nat) : Entry :=
  { name := f.name
    flags := 0x800
    method := 0
    checksum := (checksum f.content).toNat
    compressedSize := f.content.length
    offset := position }

/-- Files with their positions, the first of which is given. -/
def located (position : Nat) : List File → List (File × Nat)
  | [] => []
  | f :: rest => (f, position) :: located (position + f.encode.length) rest

/-- The entries of files the first of which starts at a position. -/
def entriesAt (position : Nat) (files : List File) : List Entry :=
  (located position files).map fun f => f.1.entryAt f.2

theorem map_fst_located (position : Nat) (files : List File) :
    (located position files).map Prod.fst = files := by
  induction files generalizing position with
  | nil => rfl
  | cons f files ih => rw [located, List.map_cons, ih]

/-- A file is behind the files before it. -/
theorem exists_of_mem_located {position at' : Nat} {files : List File} {f : File}
    (h : (f, at') ∈ located position files) :
    ∃ before after, files = before ++ f :: after ∧
      at' = position + (before.flatMap File.encode).length := by
  induction files generalizing position with
  | nil => cases h
  | cons g files ih =>
    rw [located, List.mem_cons] at h
    obtain h | h := h
    · obtain ⟨rfl, rfl⟩ := Prod.mk.inj h
      exact ⟨[], files, rfl, rfl⟩
    · obtain ⟨before, after, rfl, rfl⟩ := ih h
      refine ⟨g :: before, after, rfl, ?_⟩
      rw [List.flatMap_cons, List.length_append, Nat.add_assoc]

section

variable {f : File} {position : Nat} (hname : f.name.length < 256 ^ 2)
  (hcontent : f.content.length < 256 ^ 4) (hposition : position < 256 ^ 4) (rest : Bytes)

include hname hcontent hposition

/-- What a reader finds in a directory entry. -/
theorem numberAt_entry :
    let entry := fields (f.entryFields position) ++ rest
    numberAt entry 0 4 = entryMark ∧ numberAt entry 8 2 = 0x800 ∧ numberAt entry 10 2 = 0 ∧
      numberAt entry 16 4 = (checksum f.content).toNat ∧
      numberAt entry 20 4 = f.content.length ∧ numberAt entry 28 2 = f.name.length ∧
      numberAt entry 30 2 = 0 ∧ numberAt entry 32 2 = 0 ∧ numberAt entry 42 4 = position := by
  have hmark : entryMark < 256 ^ 4 := by decide
  have hchecksum := checksum_lt f.content
  refine ⟨numberAt_head hmark _ _, ?_, ?_, ?_, ?_, ?_, ?_, ?_, ?_⟩
  all_goals
    simp only [File.entryFields, File.commonFields, List.cons_append, List.nil_append]
    simp (disch := omega) only [numberAt_skip, Nat.reduceSub, Nat.sub_self]
    exact numberAt_head (by omega) _ _

/-- One entry of a directory. -/
theorem readEntries_entry (count : Nat) :
    readEntries 0 (count + 1) (f.entry position ++ rest) =
      match readEntries 0 count rest with
      | .error e => .error e
      | .ok entries => .ok (f.entryAt position :: entries) := by
  have hentry : f.entry position ++ rest = fields (f.entryFields position) ++ (f.name ++ rest) := by
    rw [entry_eq, List.append_assoc]
  have hnumbers := numberAt_entry hname hcontent hposition (f.name ++ rest)
  dsimp only at hnumbers
  rw [← hentry] at hnumbers
  obtain ⟨hmark, hflags, hmethod, hchecksum, hsize, hlength, hextra, hcomment, hoffset⟩ := hnumbers
  have htotal : (f.entry position ++ rest).length = 46 + f.name.length + rest.length := by
    rw [List.length_append, length_entry]
  have hwidth : (fields (f.entryFields position)).length = 46 := by
    rw [length_fields, widthOf_entryFields]
  -- the name follows the numbers, and the next entry follows the name
  have hnames : ((f.entry position ++ rest).drop 46).take f.name.length = f.name := by
    rw [hentry, List.drop_left' hwidth, List.take_left' rfl]
  have hdrop : (f.entry position ++ rest).drop (46 + f.name.length) = rest :=
    List.drop_left' (length_entry f position)
  have hshort : ¬ (f.entry position ++ rest).length < 4 := by omega
  rw [readEntries, if_neg hshort, if_neg (not_not.mpr hmark)]
  simp only [hlength, hextra, hcomment, Nat.add_zero, hflags, hmethod, hchecksum, hsize, hoffset,
    hnames, hdrop]
  rw [if_neg (by omega)]
  rfl

end

theorem readEntries_directory {files : List File} {position : Nat}
    (hnames : ∀ f ∈ files, f.name.length < 256 ^ 2)
    (hsize : position + (files.flatMap File.encode).length < 256 ^ 4) (rest : Bytes) :
    readEntries 0 files.length (directory position files ++ rest) =
      .ok (entriesAt position files) := by
  induction files generalizing position with
  | nil => rfl
  | cons f files ih =>
    rw [List.forall_mem_cons] at hnames
    rw [List.flatMap_cons, List.length_append] at hsize
    have hencode := length_encode_file f
    rw [directory, List.append_assoc, List.length_cons,
      readEntries_entry hnames.1 (by omega) (by omega), ih hnames.2 (by omega)]
    rfl

/-! ### The end -/

theorem findEnd?_eq_none {bytes : Bytes} (h : bytes.length ≤ 21) (position : Nat) :
    findEnd? position bytes = none := by
  induction bytes generalizing position with
  | nil => rfl
  | cons b bytes ih =>
    have hrest : bytes.length ≤ 21 := by
      rw [List.length_cons] at h
      omega
    have hshort : startsWithEnd (b :: bytes) = false := by
      rw [startsWithEnd, List.drop_eq_nil_of_le h]
      rfl
    rw [findEnd?, ih hrest, hshort]
    rfl

/-- The record at the end is found, whatever is before it. -/
theorem findEnd?_append {record : Bytes} (hlength : record.length = 22)
    (hmark : numberAt record 0 4 = endMark) (before : Bytes) (position : Nat) :
    findEnd? position (before ++ record) = some (position + before.length) := by
  induction before generalizing position with
  | nil =>
    obtain ⟨b, tail, rfl⟩ := List.exists_cons_of_length_pos (show 0 < record.length by omega)
    have htail : tail.length ≤ 21 := by
      rw [List.length_cons] at hlength
      omega
    have hstart : startsWithEnd (b :: tail) = true := by
      have hrest : (b :: tail).drop 21 ≠ [] := fun h => by
        have := List.drop_eq_nil_iff.mp h
        omega
      rw [startsWithEnd, hmark]
      simpa using hrest
    rw [List.nil_append, findEnd?, findEnd?_eq_none htail, hstart]
    rfl
  | cons b before ih =>
    rw [List.cons_append, findEnd?, ih, List.length_cons, Nat.add_right_comm, Nat.add_assoc]

/-- The search for the record at the end may begin anywhere before it. -/
theorem findEnd?_drop {record : Bytes} (hlength : record.length = 22)
    (hmark : numberAt record 0 4 = endMark) {before : Bytes} {n : Nat} (hn : n ≤ before.length) :
    findEnd? n ((before ++ record).drop n) = some before.length := by
  rw [List.drop_append_of_le_length hn, findEnd?_append hlength hmark, List.length_drop,
    Nat.add_sub_cancel' hn]

/-- What a reader finds in the record at the end. -/
theorem numberAt_end {count size start : Nat} (hcount : count < 256 ^ 2) (hsize : size < 256 ^ 4)
    (hstart : start < 256 ^ 4) :
    let record := fields (endFields count size start)
    numberAt record 0 4 = endMark ∧ numberAt record 4 2 = 0 ∧ numberAt record 6 2 = 0 ∧
      numberAt record 10 2 = count ∧ numberAt record 12 4 = size ∧
      numberAt record 16 4 = start := by
  have hmark : endMark < 256 ^ 4 := by decide
  have hnil : fields (endFields count size start) = fields (endFields count size start) ++ [] :=
    (List.append_nil _).symm
  dsimp only
  rw [hnil]
  refine ⟨numberAt_head hmark _ _, ?_, ?_, ?_, ?_, ?_⟩
  all_goals
    rw [endFields]
    simp (disch := omega) only [numberAt_skip, Nat.reduceSub, Nat.sub_self]
    exact numberAt_head (by omega) _ _

/-- **The directory of a written archive is read.** -/
theorem open?_encode {files : List File} (h : Fits files) :
    Archive.open? (encode files) = .ok ⟨encode files, entriesAt 0 files⟩ := by
  obtain ⟨body, hbody⟩ : ∃ body, body = files.flatMap File.encode := ⟨_, rfl⟩
  obtain ⟨entries, hentries⟩ : ∃ entries, entries = directory 0 files := ⟨_, rfl⟩
  obtain ⟨record, hrecord⟩ :
    ∃ record, record = fields (endFields files.length entries.length body.length) := ⟨_, rfl⟩
  have hsplit : encode files = (body ++ entries) ++ record := by
    rw [encode_eq, hrecord, hbody, hentries, List.append_assoc]
  have hlength : record.length = 22 := by
    rw [hrecord, length_fields, widthOf_endFields]
  have htotal : (encode files).length = body.length + entries.length + 22 := by
    rw [hsplit, List.length_append, List.length_append, hlength]
  have hsmall := h.size
  obtain ⟨hmark, hdisk, hdisk', hcount, hsize, hstart⟩ :=
    numberAt_end h.count (show entries.length < 256 ^ 4 by omega)
      (show body.length < 256 ^ 4 by omega)
  rw [← hrecord] at hmark hdisk hdisk' hcount hsize hstart
  -- the record is found where it was written, for no other fits behind it
  have hfound : findEnd? ((encode files).length - 65557)
      ((encode files).drop ((encode files).length - 65557)) = some (body ++ entries).length := by
    generalize hn : (encode files).length - 65557 = n
    rw [hsplit]
    refine findEnd?_drop hlength hmark ?_
    rw [List.length_append]
    omega
  have hbehind : (encode files).drop (body ++ entries).length = record := by
    rw [hsplit, List.drop_left' rfl]
  have hdirectory : (encode files).drop body.length = entries ++ record := by
    rw [hsplit, List.append_assoc, List.drop_left' rfl]
  -- and the entries are read from where it says that they begin
  have hread : readEntries 0 files.length (entries ++ record) = .ok (entriesAt 0 files) := by
    rw [hentries]
    exact readEntries_directory h.names (by rw [← hbody]; omega) record
  have hplace : (body ++ entries).length - entries.length - body.length = 0 := by
    rw [List.length_append]
    omega
  rw [Archive.open?, if_neg (by omega), hfound]
  simp only [hbehind, hdisk, hdisk', hsize, hstart, hcount, hplace, Nat.add_zero, hdirectory, hread]
  rw [if_neg (not_not.mpr rfl), if_neg (by rw [List.length_append]; omega)]

/-! ### Files -/

section

variable {f : File} (hname : f.name.length < 256 ^ 2) (hcontent : f.content.length < 256 ^ 4)
  (rest : Bytes)

include hname

/-- What a reader finds in the header of a file. -/
theorem numberAt_header :
    let header := fields f.headerFields ++ rest
    numberAt header 0 4 = fileMark ∧ numberAt header 26 2 = f.name.length ∧
      numberAt header 28 2 = 0 := by
  have hmark : fileMark < 256 ^ 4 := by decide
  refine ⟨numberAt_head hmark _ _, ?_, ?_⟩
  all_goals
    simp only [File.headerFields, File.commonFields]
    simp (disch := omega) only [numberAt_skip, Nat.reduceSub, Nat.sub_self]
    exact numberAt_head (by omega) _ _

/-- A file is read from where its entry says. -/
theorem content_entryAt {a : Archive} {position : Nat}
    (hplace : a.bytes.drop position = f.encode ++ rest) :
    a.content (f.entryAt position) = .ok f.content := by
  have hheader : f.encode ++ rest = fields f.headerFields ++ (f.name ++ f.content ++ rest) := by
    rw [encode_file, List.append_assoc]
  obtain ⟨hmark, hlength, hextra⟩ := numberAt_header hname (f.name ++ f.content ++ rest)
  have hlong : ¬ (f.encode ++ rest).length < 30 := by
    rw [List.length_append, length_encode_file]
    omega
  have hdata : ((f.encode ++ rest).drop (30 + f.name.length)).take f.content.length =
      f.content := by
    have hwidth : (fields f.headerFields ++ f.name).length = 30 + f.name.length := by
      rw [List.length_append, length_fields, widthOf_headerFields]
    rw [encode_file, List.append_assoc, List.append_assoc, ← List.append_assoc,
      List.drop_left' hwidth, List.take_left' rfl]
  rw [hheader] at hlong hdata
  simp only [Archive.content, File.entryAt, hplace, hheader, hmark, hlength, hextra, Nat.add_zero,
    hdata]
  rw [if_neg (by decide), if_neg hlong, if_neg (not_not.mpr rfl)]
  simp only [if_true]

end

theorem content_of_mem_located {files : List File} (h : Fits files) {f : File} {position : Nat}
    (hf : (f, position) ∈ located 0 files) :
    Archive.content ⟨encode files, entriesAt 0 files⟩ (f.entryAt position) = .ok f.content := by
  obtain ⟨before, after, rfl, rfl⟩ := exists_of_mem_located hf
  have hmem : f ∈ before ++ f :: after := List.mem_append_right _ List.mem_cons_self
  obtain ⟨tail, htail⟩ : ∃ tail, encode (before ++ f :: after) =
      (before ++ f :: after).flatMap File.encode ++ tail := ⟨_, encode_eq _⟩
  refine content_entryAt (h.names f hmem) (after.flatMap File.encode ++ tail) ?_
  rw [Nat.zero_add]
  dsimp only
  rw [htail, List.flatMap_append, List.append_assoc, List.drop_left' rfl, List.flatMap_cons,
    List.append_assoc]

/-- **A written archive holds its files, and nothing else.**  Of two files of one name it gives the
last. -/
theorem exists_open?_encode {files : List File} (h : Fits files) :
    ∃ a, Archive.open? (encode files) = .ok a ∧
      ∀ name, a.find? name = .ok ((files.reverse.find? (·.name == name)).map File.content) := by
  refine ⟨_, open?_encode h, fun name => ?_⟩
  have hfiles : files.reverse = (located 0 files).reverse.map Prod.fst := by
    rw [List.map_reverse, map_fst_located]
  rw [Archive.find?, entriesAt, ← List.map_reverse, List.find?_map, hfiles, List.find?_map]
  have hentry : ((fun entry : Entry => entry.name == name) ∘
      fun f : File × Nat => f.1.entryAt f.2) = (fun f => f.name == name) ∘ Prod.fst := rfl
  rw [hentry]
  cases hfound : (located 0 files).reverse.find? ((fun f => f.name == name) ∘ Prod.fst) with
  | none => rfl
  | some f =>
    have hmem := List.mem_reverse.mp (List.mem_of_find?_eq_some hfound)
    have hcontent := content_of_mem_located h hmem
    rw [entriesAt] at hcontent
    simp only [Option.map_some, hcontent]

end Interdoc.Zip

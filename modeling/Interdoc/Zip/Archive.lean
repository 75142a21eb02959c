import Interdoc.Zip.Inflate

/-!
# Zip archives

An archive is a sequence of files, each behind a header of its own, then a directory, and last a
record that says where the directory is.  `Archive.open?` finds the record, searching from the end,
and reads the directory; `Archive.find?` reads one file by its name.  Of two entries of one name the
later one counts.

`Zip.encode` writes an archive whose files are stored without compression.
-/

namespace Interdoc.Zip

/-- A sequence of octets. -/
abbrev Bytes := List UInt8

/-- Why an archive or a file in it cannot be read. -/
inductive Fault where
  | tooShort
  | noDirectoryEnd
  | severalDisks
  | badDirectoryPlace
  | truncated
  | badDirectoryHeader
  | badFileHeader
  | encrypted
  | unknownMethod
  | corruptData
  | badChecksum
  deriving DecidableEq, Repr

/-- A fault in words. -/
def Fault.message : Fault → String
  | .tooShort => "invalid Zip archive: Invalid zip header"
  | .noDirectoryEnd => "invalid Zip archive: Could not find central directory end"
  | .severalDisks => "unsupported Zip archive: Support for multi-disk files is not implemented"
  | .badDirectoryPlace => "invalid Zip archive: Invalid central directory size or offset"
  | .truncated => "failed to fill whole buffer"
  | .badDirectoryHeader => "invalid Zip archive: Invalid Central Directory header"
  | .badFileHeader => "invalid Zip archive: Invalid local file header"
  | .encrypted => "unsupported Zip archive: Password required to decrypt file"
  | .unknownMethod => "unsupported Zip archive: Compression method not supported"
  | .corruptData => "corrupt deflate stream"
  | .badChecksum => "Invalid checksum"

/-! ### Checksums

The checksum of a file is a cyclic redundancy check of 32 bits: the remainder of the content by the
reflected polynomial `0xedb88320`, with all bits inverted before and after.
-/

/-- The register after `n` more bits of value zero. -/
def shiftChecksum (register : UInt32) : (n : Nat) → UInt32
  | 0 => register
  | n + 1 =>
    let shifted := register >>> 1
    shiftChecksum (if register &&& 1 = 1 then shifted ^^^ 0xedb88320 else shifted) n

/-- The checksum of a sequence of octets. -/
def checksum (bytes : List UInt8) : UInt32 :=
  ~~~(bytes.foldl (fun register b => shiftChecksum (register ^^^ b.toUInt32) 8) 0xffffffff)

/-! ### Numbers -/

/-- A number in the given count of octets, the lowest first. -/
def littleEndian : (width n : Nat) → Bytes
  | 0, _ => []
  | width + 1, n => n.toUInt8 :: littleEndian width (n / 256)

/-- The number that octets stand for, the lowest first. -/
def ofLittleEndian : Bytes → Nat
  | [] => 0
  | b :: rest => b.toNat + 256 * ofLittleEndian rest

/-- The number in the octets of a header from an offset on. -/
def numberAt (header : Bytes) (offset width : Nat) : Nat :=
  ofLittleEndian ((header.drop offset).take width)

/-! ### Reading -/

/-- The marks of the three kinds of record. -/
def fileMark : Nat := 0x04034b50

/-- The mark of a directory entry. -/
def entryMark : Nat := 0x02014b50

/-- The mark of the record at the end. -/
def endMark : Nat := 0x06054b50

/-- An entry of the directory. -/
structure Entry where
  name : Bytes
  flags : Nat
  method : Nat
  checksum : Nat
  compressedSize : Nat
  /-- Where the header of the file is, from the start of the octets. -/
  offset : Nat

/-- An archive: all its octets, and its directory. -/
structure Archive where
  bytes : Bytes
  entries : List Entry

/-- Whether octets begin with the record at the end, which has at least 22 octets. -/
def startsWithEnd (bytes : Bytes) : Bool :=
  !(bytes.drop 21).isEmpty && numberAt bytes 0 4 == endMark

/-- The last position at which the record at the end begins, for octets that begin at a position. -/
def findEnd? (position : Nat) : Bytes → Option Nat
  | [] => none
  | b :: rest =>
    match findEnd? (position + 1) rest with
    | some later => some later
    | none => if startsWithEnd (b :: rest) then some position else none

/-- So many entries of a directory, where positions in it are `shift` too low. -/
def readEntries (shift : Nat) : (count : Nat) → Bytes → Except Fault (List Entry)
  | 0, _ => .ok []
  | count + 1, bytes =>
    if bytes.length < 4 then .error .truncated
    else if numberAt bytes 0 4 ≠ entryMark then .error .badDirectoryHeader
    else
      let nameLength := numberAt bytes 28 2
      let size := 46 + nameLength + numberAt bytes 30 2 + numberAt bytes 32 2
      if bytes.length < size then .error .truncated
      else
        let entry : Entry :=
          { name := (bytes.drop 46).take nameLength
            flags := numberAt bytes 8 2
            method := numberAt bytes 10 2
            checksum := numberAt bytes 16 4
            compressedSize := numberAt bytes 20 4
            offset := numberAt bytes 42 4 + shift }
        match readEntries shift count (bytes.drop size) with
        | .error e => .error e
        | .ok entries => .ok (entry :: entries)

/-- The archive in a sequence of octets. -/
def Archive.open? (bytes : Bytes) : Except Fault Archive :=
  if bytes.length < 22 then .error .tooShort
  else match findEnd? (bytes.length - 65557) (bytes.drop (bytes.length - 65557)) with
    | none => .error .noDirectoryEnd
    | some position =>
      let record := bytes.drop position
      let size := numberAt record 12 4
      let start := numberAt record 16 4
      if numberAt record 4 2 ≠ numberAt record 6 2 then .error .severalDisks
      else if position < size + start then .error .badDirectoryPlace
      else
        let shift := position - size - start
        match readEntries shift (numberAt record 10 2) (bytes.drop (start + shift)) with
        | .error e => .error e
        | .ok entries => .ok ⟨bytes, entries⟩

/-- The content of the file of an entry. -/
def Archive.content (a : Archive) (entry : Entry) : Except Fault Bytes :=
  let header := a.bytes.drop entry.offset
  if entry.flags % 2 = 1 then .error .encrypted
  else if header.length < 30 then .error .truncated
  else if numberAt header 0 4 ≠ fileMark then .error .badFileHeader
  else
    let start := 30 + numberAt header 26 2 + numberAt header 28 2
    let data := (header.drop start).take entry.compressedSize
    let content : Except Fault Bytes :=
      if entry.method = 0 then .ok data
      else if entry.method = 8 then
        match inflate? data with
        | some content => .ok content
        | none => .error .corruptData
      else .error .unknownMethod
    match content with
    | .error e => .error e
    | .ok content =>
      if (checksum content).toNat = entry.checksum then .ok content else .error .badChecksum

/-- The content of the last file with the name, if there is one. -/
def Archive.find? (a : Archive) (name : Bytes) : Except Fault (Option Bytes) :=
  match a.entries.reverse.find? fun entry => entry.name == name with
  | none => .ok none
  | some entry =>
    match a.content entry with
    | .error e => .error e
    | .ok content => .ok (some content)

/-! ### Writing -/

/-- A file to be put into an archive. -/
structure File where
  name : Bytes
  content : Bytes

/-- The part of a header that files and directory entries share: flags, method, time, checksum,
sizes and the lengths of the name and of an empty extra field. -/
def File.commonHeader (f : File) : Bytes :=
  littleEndian 2 0x0800 ++ littleEndian 2 0 ++ littleEndian 2 0 ++ littleEndian 2 0x21 ++
    littleEndian 4 (checksum f.content).toNat ++ littleEndian 4 f.content.length ++
    littleEndian 4 f.content.length ++ littleEndian 2 f.name.length ++ littleEndian 2 0

/-- A file behind its header. -/
def File.encode (f : File) : Bytes :=
  littleEndian 4 fileMark ++ littleEndian 2 20 ++ f.commonHeader ++ f.name ++ f.content

/-- The directory entry of a file that starts at a position. -/
def File.entry (f : File) (position : Nat) : Bytes :=
  littleEndian 4 entryMark ++ littleEndian 2 20 ++ littleEndian 2 20 ++ f.commonHeader ++
    littleEndian 2 0 ++ littleEndian 2 0 ++ littleEndian 2 0 ++ littleEndian 4 0 ++
    littleEndian 4 position ++ f.name

/-- The directory of files the first of which starts at a position. -/
def directory (position : Nat) : List File → Bytes
  | [] => []
  | f :: rest => f.entry position ++ directory (position + f.encode.length) rest

/-- An archive of files. -/
def encode (files : List File) : Bytes :=
  let body := files.flatMap File.encode
  let entries := directory 0 files
  body ++ entries ++ littleEndian 4 endMark ++ littleEndian 2 0 ++ littleEndian 2 0 ++
    littleEndian 2 files.length ++ littleEndian 2 files.length ++ littleEndian 4 entries.length ++
    littleEndian 4 body.length ++ littleEndian 2 0

end Interdoc.Zip

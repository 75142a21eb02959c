import Interdoc.Document.Basic
import Interdoc.Error

/-!
# Formats

A format reads documents from octets and writes them to octets.  What it says about itself, its name
and the file extensions that it claims, is what others find it by.
-/

namespace Interdoc

/-- A format of documents. -/
structure Format where
  name : String
  description : String := ""
  /-- The file extensions that the format claims, without a dot. -/
  extensions : List String := []
  /-- Whether what the format writes is no text. -/
  isBinary : Bool := false
  read : List UInt8 → Except Error Document
  write : Document → Except Error (List UInt8)

namespace Format

/-- The reader of octets that a reader of text gives. -/
def readText (read : List Char → Document) (bytes : List UInt8) : Except Error Document :=
  match Utf8.decode? bytes with
  | .ok s => .ok (read s)
  | .error fault => .error (.notText fault)

/-- The writer of octets that a writer of text gives. -/
def writeText (write : Document → List Char) (d : Document) : Except Error (List UInt8) :=
  .ok (Utf8.encode (write d))

end Format

end Interdoc

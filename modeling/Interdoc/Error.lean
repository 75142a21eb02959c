import Interdoc.Document.Validation
import Interdoc.Docx.Package
import Interdoc.Text.Utf8

/-!
# Errors

What can go wrong in a conversion.  Reading LaTeX and Markdown never fails once the octets are a
text; the other causes are formats that nobody registered, packages that are broken, values that are
no documents, and formats that cannot write a document.
-/

namespace Interdoc

/-- Why a conversion fails. -/
inductive Error where
  | formatNotFound (name : String)
  | notText (fault : Utf8.Fault)
  | notWritable (cause : String)
  | package (fault : Docx.Fault)
  | invalidDocument (violations : List Violation)
  deriving DecidableEq, Repr

/-- An error in words. -/
def Error.message : Error → String
  | .formatNotFound name => "Format '" ++ name ++ "' not found"
  | .notText fault => "Input is not valid UTF-8: " ++ fault.message
  | .notWritable cause => "Serialization error: " ++ cause
  | .package fault => fault.message
  | .invalidDocument violations =>
    "Invalid document: " ++ "; ".intercalate (violations.map Violation.message)

end Interdoc

import Interdoc.Document.Encoding
import Interdoc.Error

/-!
# Documents from outside

A JSON value from outside is checked before it is read, so that every place in which it is no
document can be named.
-/

namespace Interdoc

/-- The document that a JSON value describes, or all violations in it.  A value without violations
that cannot be read would be an error of its own. -/
def Document.check? (v : Json) : Except Error Document :=
  match v.documentViolations with
  | [] =>
    match Document.ofJson? v with
    | some d => .ok d
    | none => .error (.notWritable "the value describes no document")
  | violations => .error (.invalidDocument violations)

end Interdoc

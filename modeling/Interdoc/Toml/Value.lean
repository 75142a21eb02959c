import Interdoc.Number.Binary64

/-!
# TOML values

A TOML text is a table: names with values, each of which may be a table again.  Dates and times are
kept as text.
-/

namespace Interdoc.Toml

/-- A TOML value. -/
inductive Value where
  | string (s : String)
  | integer (n : Int)
  | real (x : Binary64)
  | infinity (negative : Bool)
  /-- The result of no computation. -/
  | notNumber
  | bool (b : Bool)
  | date (text : String)
  | array (items : List Value)
  | table (members : List (String × Value))
  deriving Repr, Inhabited

/-- The members of a table. -/
abbrev Members := List (String × Value)

namespace Value

/-- The members of a table; other values have none. -/
def members : Value → Members
  | .table members => members
  | _ => []

/-- The member of a table with the name. -/
def get? (v : Value) (name : String) : Option Value :=
  v.members.lookup name

end Value

/-- Members in which one has a new value. -/
def Members.set (name : String) (v : Value) : Members → Members
  | [] => [(name, v)]
  | (n, w) :: rest => if n = name then (n, v) :: rest else (n, w) :: Members.set name v rest

end Interdoc.Toml

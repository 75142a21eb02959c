import Interdoc.Number.Binary64

/-!
# JSON values

A `Json` value keeps integers of at most 64 bits apart from all other numbers, which are floating
point numbers.  The members of an object stand in a list; `Json.canonical` sorts them by name and
keeps the last of two members of one name, which is how a reader sees an object.  Two values with
the same canonical form denote the same JSON value.
-/

namespace Interdoc

/-- A JSON value. -/
inductive Json where
  | null
  | bool (b : Bool)
  | integer (n : Int)
  | real (x : Binary64)
  | string (s : String)
  | array (items : List Json)
  | object (members : List (String × Json))
  deriving Repr

namespace Json

/-- The value of the first member with the name. -/
def member? (name : String) : List (String × Json) → Option Json
  | [] => none
  | (n, v) :: rest => if n = name then some v else member? name rest

/-- The value of a member of an object. -/
def get? (name : String) : Json → Option Json
  | .object members => member? name members
  | _ => none

theorem sizeOf_member? {name : String} {members : List (String × Json)} {v : Json}
    (h : member? name members = some v) : sizeOf v < sizeOf members := by
  induction members with
  | nil => simp [member?] at h
  | cons p rest ih =>
    obtain ⟨n, w⟩ := p
    unfold member? at h
    split at h
    · cases h; simp; omega
    · have := ih h; simp; omega

/-- A member put in its place in a list sorted by name, in place of one of the same name. -/
def insert (name : String) (v : Json) : List (String × Json) → List (String × Json)
  | [] => [(name, v)]
  | (n, w) :: rest =>
    if name = n then (name, v) :: rest
    else if name < n then (name, v) :: (n, w) :: rest
    else (n, w) :: insert name v rest

/-- Members sorted by name, the last of each name alone. -/
def sortMembers (members : List (String × Json)) : List (String × Json) :=
  members.foldl (fun sorted (name, v) => insert name v sorted) []

mutual

/-- The value with the members of every object sorted by name, the last of each name alone. -/
def canonical : Json → Json
  | .array items => .array (canonicalItems items)
  | .object members => .object (sortMembers (canonicalMembers members))
  | .null => .null
  | .bool b => .bool b
  | .integer n => .integer n
  | .real x => .real x
  | .string s => .string s

/-- `canonical` on each item. -/
def canonicalItems : List Json → List Json
  | [] => []
  | v :: rest => canonical v :: canonicalItems rest

/-- `canonical` on the value of each member. -/
def canonicalMembers : List (String × Json) → List (String × Json)
  | [] => []
  | (name, v) :: rest => (name, canonical v) :: canonicalMembers rest

end

/-- The kind of a value in words. -/
def kind : Json → String
  | .null => "null"
  | .bool _ => "a boolean"
  | .integer _ => "a number"
  | .real _ => "a number"
  | .string _ => "a string"
  | .array _ => "an array"
  | .object _ => "an object"

end Json

end Interdoc

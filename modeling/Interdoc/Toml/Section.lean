import Interdoc.Toml.Value

/-!
# Tables in the making

The sections of a TOML text add to one tree.  `Entry` is a node of that tree: besides its content it
tells how a table came about, since a table may be defined only once.  A header `[a.b]` defines `b`
and brings about `a`, which a later header may still define.  A dotted key `a.b = 1` brings about
`a` too, but only other dotted keys of the same section may add to it.
-/

namespace Interdoc.Toml

/-- How a table came about. -/
inductive Origin where
  /-- By a header for it. -/
  | header
  /-- By a header for a table inside it. -/
  | outer
  /-- By a dotted key. -/
  | dotted
  deriving DecidableEq, Repr

/-- A value, a table or a sequence of tables. -/
inductive Entry where
  | value (v : Value)
  | table (origin : Origin) (entries : List (String × Entry))
  | tables (items : List (List (String × Entry)))
  deriving Repr, Inhabited

/-- The entries of a table. -/
abbrev Entries := List (String × Entry)

namespace Entries

/-- Entries in which one is new. -/
def set (name : String) (e : Entry) : Entries → Entries
  | [] => [(name, e)]
  | (n, f) :: rest => if n = name then (n, e) :: rest else (n, f) :: set name e rest

/-- The entries after a key with dots has been given a value: the names before the last one, the
last one and the value.  The origin is that of the table itself, and the flag tells whether a name
of the key has led to it. -/
def insert? (origin : Origin) (isInner : Bool) (name : String) (v : Value) :
    (path : List String) → Entries → Option Entries
  | [], entries =>
    if (origin = .dotted) ≠ isInner || (entries.lookup name).isSome then none
    else some (entries ++ [(name, .value v)])
  | first :: path, entries =>
    match entries.lookup first with
    | none =>
      (insert? .dotted true name v path []).map fun inner =>
        entries ++ [(first, .table .dotted inner)]
    | some (.value _) => none
    | some (.table .header _) => none
    | some (.table inner es) =>
      (insert? inner true name v path es).map fun es => set first (.table inner es) entries
    | some (.tables items) =>
      match items.reverse with
      | [] => none
      | last :: before =>
        (insert? .header true name v path last).map fun es =>
          set first (.tables (es :: before).reverse) entries

/-- The entries after a change to the table that a header's names lead to.  Tables on the way are
brought about, and of a sequence of tables the last one is meant. -/
def modify? (f : Entries → Option Entries) : (path : List String) → Entries → Option Entries
  | [], entries => f entries
  | first :: path, entries =>
    match entries.lookup first with
    | none => (modify? f path []).map fun inner => entries ++ [(first, .table .outer inner)]
    | some (.value _) => none
    | some (.table origin es) =>
      (modify? f path es).map fun es => set first (.table origin es) entries
    | some (.tables items) =>
      match items.reverse with
      | [] => none
      | last :: before =>
        (modify? f path last).map fun es => set first (.tables (es :: before).reverse) entries

end Entries

/-- A key with a value: the names before the last one, the last one and the value. -/
structure Pair where
  path : List String
  name : String
  value : Value
  deriving Repr

/-- The entries with some pairs added to a table. -/
def Entries.addPairs? (pairs : List Pair) (entries : Entries) : Option Entries :=
  pairs.foldlM (fun es p => es.insert? .header false p.name p.value p.path) entries

/-- The header of a section: the names before the last one, the last one, and whether the section is
one more table of a sequence. -/
structure Header where
  path : List String
  name : String
  isItem : Bool
  deriving Repr

/-- The entries with a section added. -/
def Entries.addSection? (header : Header) (pairs : List Pair) (entries : Entries) :
    Option Entries :=
  entries.modify? (fun es =>
    match header.isItem, es.lookup header.name with
    | false, none =>
      (addPairs? pairs []).map fun inner => es ++ [(header.name, .table .header inner)]
    | false, some (.table .outer inner) =>
      (addPairs? pairs inner).map fun inner => set header.name (.table .header inner) es
    | true, none => (addPairs? pairs []).map fun inner => es ++ [(header.name, .tables [inner])]
    | true, some (.tables items) =>
      (addPairs? pairs []).map fun inner => set header.name (.tables (items ++ [inner])) es
    | _, _ => none) header.path

mutual

/-- The value of an entry. -/
def Entry.toValue : Entry → Value
  | .value v => v
  | .table _ entries => .table (membersOf entries)
  | .tables items => .array (tablesOf items)

/-- The members that entries stand for. -/
def membersOf : List (String × Entry) → List (String × Value)
  | [] => []
  | (name, e) :: rest => (name, e.toValue) :: membersOf rest

/-- The tables that a sequence of entries stands for. -/
def tablesOf : List (List (String × Entry)) → List Value
  | [] => []
  | entries :: rest => .table (membersOf entries) :: tablesOf rest

end

end Interdoc.Toml

import Interdoc.Text.Blank

/-!
# Files by their paths

A command reads and writes files by their paths.  Where the files are is left open: `Files m` gives
the two operations in a monad, and `Directory` is a collection of files in memory for which there
are such operations (`Directory.operations`).
-/

namespace Interdoc.CommandLine

/-! ### Paths -/

namespace Path

/-- The names on a path; empty ones and those of the same place are left out. -/
def components (path : String) : List String :=
  ((Text.splitOn '/' path.toList).map String.ofList).filter fun name => name != "" && name != "."

/-- What follows the last dot of a name, unless that dot is its first character. -/
def nameExtension? (name : String) : Option String :=
  let afterDot := (name.toList.reverse.takeWhile (· != '.')).reverse
  if afterDot.length + 1 < name.length && name != ".." then some (String.ofList afterDot) else none

/-- The extension of the last name on a path. -/
def extension? (path : String) : Option String :=
  (components path).getLast?.bind nameExtension?

end Path

/-! ### Operations on files -/

/-- Why a file cannot be read or written. -/
inductive FileFault where
  | notFound
  | notPermitted
  | notDirectory
  | isDirectory
  | other (cause : String)
  deriving DecidableEq, Repr

/-- A fault in words. -/
def FileFault.message : FileFault → String
  | .notFound => "No such file or directory (os error 2)"
  | .notPermitted => "Permission denied (os error 13)"
  | .notDirectory => "Not a directory (os error 20)"
  | .isDirectory => "Is a directory (os error 21)"
  | .other cause => cause

/-- Reading and writing of files. -/
structure Files (m : Type → Type) where
  read : String → m (Except FileFault (List UInt8))
  write : String → List UInt8 → m (Except FileFault Unit)

/-! ### Directories in memory -/

/-- A collection of files.  The names on the path of a file are listed from the top; there is a
folder where some file is below. -/
structure Directory where
  files : List (List String × List UInt8)

namespace Directory

/-- The content of the file at a place. -/
def content? (d : Directory) (place : List String) : Option (List UInt8) :=
  d.files.lookup place

/-- Whether there is a folder at a place. -/
def isFolder (d : Directory) (place : List String) : Bool :=
  place.isEmpty || d.files.any fun f => place.isPrefixOf f.1 && place.length < f.1.length

/-- The place that names lead to from another one.  All names but the last lead to folders. -/
def walk (d : Directory) (here : List String) : List String → Except FileFault (List String)
  | [] => .ok here
  | name :: rest =>
    if name = ".." then
      if here.isEmpty then .error (if rest.isEmpty then .isDirectory else .notFound)
      else d.walk here.dropLast rest
    else
      let next := here ++ [name]
      if rest.isEmpty || d.isFolder next then d.walk next rest
      else .error (if (d.content? next).isSome then .notDirectory else .notFound)

/-- Whether a path ends in a way that only folders have. -/
def endsInFolder (path : String) : Bool :=
  match (Text.splitOn '/' path.toList).reverse with
  | [] :: _ :: _ => true
  | ['.'] :: _ => true
  | _ => false

/-- The place of a path.  Paths from the top of the file system lead out of the directory. -/
def place? (d : Directory) (path : String) : Except FileFault (List String) :=
  match path.toList with
  | [] => .error .notFound
  | '/' :: _ =>
    .error (if (Path.components path).isEmpty then .isDirectory else .notFound)
  | _ => d.walk [] (Path.components path)

/-- The content of the file at a path. -/
def read (d : Directory) (path : String) : Except FileFault (List UInt8) := do
  let place ← d.place? path
  match d.content? place with
  | some content => if endsInFolder path then .error .notDirectory else .ok content
  | none => .error (if d.isFolder place then .isDirectory else .notFound)

/-- The directory after a file is written at a path. -/
def write (d : Directory) (path : String) (content : List UInt8) : Except FileFault Directory := do
  let place ← d.place? path
  let exists? := (d.content? place).isSome
  if d.isFolder place then .error .isDirectory
  else if endsInFolder path then .error (if exists? then .notDirectory else .isDirectory)
  else if exists? then
    return ⟨d.files.map fun f => if f.1 == place then (place, content) else f⟩
  else return ⟨d.files ++ [(place, content)]⟩

/-- The operations on the files of a directory, which is the state. -/
def operations : Files (StateM Directory) where
  read path := do return (← get).read path
  write path content := do
    match (← get).write path content with
    | .ok d =>
      set d
      return .ok ()
    | .error e => return .error e

end Directory

end Interdoc.CommandLine

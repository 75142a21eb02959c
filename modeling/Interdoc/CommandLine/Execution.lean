import Interdoc.CommandLine.Files
import Interdoc.CommandLine.Help
import Interdoc.Document.Encoding
import Interdoc.Document.Validation
import Interdoc.Json.Parser
import Interdoc.Json.Printer
import Interdoc.Registry.Standard

/-!
# Carrying out requests

`Request.execute` carries a request out and says what is printed and with which code the program
ends.  Code 0 is success, 1 failure, and 2 a request that makes no sense.

Before a command runs, the configuration is made: from the file that the request names, or from the
file of the usual name if it exists.  Then a command stops at the first thing that is wrong: a
conversion looks at the formats before it reads its input.
-/

namespace Interdoc.CommandLine

/-- What a run leaves behind, apart from files. -/
structure Outcome where
  code : UInt8
  output : List UInt8
  diagnostics : String
  deriving DecidableEq, Repr

namespace Outcome

/-- A success that prints octets. -/
def printing (output : List UInt8) : Outcome := ⟨0, output, ""⟩

/-- A success that prints a text. -/
def printingText (s : String) : Outcome := printing (Utf8.encode s.toList)

/-- A failure. -/
def failure (message : String) : Outcome := ⟨1, [], message ++ "\n"⟩

/-- A failure of a command. -/
def commandFailure (message : String) : Outcome := failure ("Error: " ++ message)

/-- A request that makes no sense. -/
def refusal : Outcome :=
  ⟨2, [], "error: the arguments make no sense\n\nFor more information, try '--help'.\n"⟩

end Outcome

/-! ### Configurations -/

/-- The configuration file that is used if it exists. -/
def localConfiguration : String := "docmorph.toml"

section

variable {m : Type → Type} [Monad m]

/-- The layer of a configuration file.  Its name may be given without the extension. -/
def layerAt (files : Files m) (path : String) (isRequired : Bool) : m Configuration.Layer := do
  let layer (path : String) (content : List UInt8) : Configuration.Layer :=
    ⟨"/".intercalate (Path.components path), some content, isRequired⟩
  match ← files.read path with
  | .ok content => return layer path content
  | .error _ =>
    let longer := path ++ ".toml"
    match ← files.read longer with
    | .ok content => return layer longer content
    | .error _ => return ⟨path, none, isRequired⟩

/-- The configuration for a request. -/
def configurationFor (files : Files m) (path : Option String) :
    m (Except Configuration.Fault Configuration) := do
  let layer ← match path with
    | some path => layerAt files path true
    | none => layerAt files localConfiguration false
  return Configuration.ofLayers? [layer]

end

/-! ### Commands -/

/-- The name of the format of an input: the one that is given, or the one that claims the extension
of the file. -/
def inputFormat (r : Registry) (source : Option String) (path : String) : Except String String :=
  match source with
  | some name => .ok name
  | none =>
    match r.forExtension? ((Path.extension? path).getD "") with
    | some f => .ok f.name
    | none =>
      .error ("cannot infer the format of " ++ path ++ ", pass --from (available: " ++
        ", ".intercalate r.names ++ ")")

/-- The list of formats. -/
def formatList (r : Registry) : String :=
  "Available formats:\n\n" ++ String.join (r.formats.map fun f =>
    "  " ++ f.name ++ " (." ++ ", .".intercalate f.extensions ++ ")\n" ++
      "    " ++ f.description ++ "\n\n")

/-- What is said about the text of a document in JSON. -/
def validationOutcome (path : String) (content : List UInt8) : Outcome :=
  match Utf8.decode? content with
  | .error fault => .commandFailure (path ++ " is not UTF-8: " ++ fault.message)
  | .ok s =>
    match Json.parse? s with
    | .error e => .commandFailure ("invalid JSON: " ++ e.message)
    | .ok v =>
      match v.documentViolations with
      | [] => .printingText (path ++ ": valid\n")
      | violations =>
        ⟨1, Utf8.encode (String.join (violations.map fun x => x.message ++ "\n")).toList,
          toString violations.length ++ " violation(s) in " ++ path ++ "\n"⟩

section

variable {m : Type → Type} [Monad m]

/-- An outcome that depends on the content of a file. -/
def withContent (files : Files m) (path : String) (use : List UInt8 → m Outcome) : m Outcome := do
  match ← files.read path with
  | .ok content => use content
  | .error fault => return .commandFailure ("cannot read " ++ path ++ ": " ++ fault.message)

/-- The outcome of octets that are printed, or written to a file. -/
def deliver (files : Files m) (output : Option String) (bytes : List UInt8) : m Outcome := do
  match output with
  | none => return .printing bytes
  | some path =>
    match ← files.write path bytes with
    | .ok () => return .printing []
    | .error fault => return .commandFailure ("cannot write " ++ path ++ ": " ++ fault.message)

/-- Carries a command out. -/
def Command.execute (files : Files m) (r : Registry) : Command → m Outcome
  | .convert input target source output =>
    match inputFormat r source input with
    | .error message => return .commandFailure message
    | .ok source =>
      match r.get target with
      | .error e => return .commandFailure e.message
      | .ok _ =>
        withContent files input fun content =>
          match r.convert content source target with
          | .ok bytes => deliver files output bytes
          | .error e => return .commandFailure e.message
  | .inspect input source =>
    match inputFormat r source input with
    | .error message => return .commandFailure message
    | .ok source =>
      withContent files input fun content =>
        match r.parse content source with
        | .ok d => return .printing (Utf8.encode (d.toJson.pretty ++ ['\n']))
        | .error e => return .commandFailure e.message
  | .validate path => withContent files path fun content => return validationOutcome path content
  | .listFormats => return .printingText (formatList r)

/-- Carries a request out. -/
def Request.execute (files : Files m) : Request → m Outcome
  | .run path command => do
    match ← configurationFor files path with
    | .ok c => command.execute files (.ofConfiguration c)
    | .error fault => return .failure ("Configuration error: " ++ fault.message)
  | .help verb => return .printingText (helpText verb)
  | .version => return .printingText versionLine
  | .refused => return .refusal

end

end Interdoc.CommandLine

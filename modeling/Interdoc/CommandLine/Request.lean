import Interdoc.Text.Blank

/-!
# Requests on the command line

The arguments of the program name a command, give it its operands and set settings.  A setting is
set by its letter (`-t latex`, `-tlatex`, `-t=latex`) or by its name (`--to latex`, `--to=latex`),
each at most once; after `--` all arguments are operands.  A value that is an argument of its own
does not begin with a dash, unless it is a lone one.

`Request.ofArguments` says what the arguments ask for.  Asking for help ends the reading of
arguments: what is wrong before it is found, what is wrong after it is not.
-/

namespace Interdoc.CommandLine

/-! ### Commands -/

/-- What the program can do with documents. -/
inductive Command where
  /-- Converts a file to a format; without an output the result is printed. -/
  | convert (input target : String) (source output : Option String)
  /-- Prints the document in a file. -/
  | inspect (input : String) (source : Option String)
  /-- Lists what is wrong with a document in a file. -/
  | validate (path : String)
  | listFormats
  deriving DecidableEq, Repr

/-- A setting, which has a value. -/
inductive Setting where
  | configuration
  | target
  | source
  | output
  deriving DecidableEq, Repr

namespace Setting

/-- The name of a setting. -/
def name : Setting → String
  | configuration => "config"
  | target => "to"
  | source => "from"
  | output => "output"

/-- The letter of a setting. -/
def letter : Setting → Char
  | configuration => 'c'
  | target => 't'
  | source => 'f'
  | output => 'o'

/-- What a setting is for. -/
def purpose : Setting → String
  | configuration => "Configuration file layered over the defaults"
  | target => "Output format (e.g., 'markdown', 'latex', 'docx')"
  | source => "Input format (default: inferred from the file extension)"
  | output => "Write to this file instead of stdout"

end Setting

/-! ### Arguments -/

/-- What the arguments say up to a command. -/
structure Reading where
  values : List (Setting × String) := []
  operands : List String := []
  /-- The command and the arguments after it. -/
  command : Option (String × List String) := none
  deriving Repr

/-- The value of a setting. -/
def Reading.value? (r : Reading) (s : Setting) : Option String :=
  r.values.lookup s

/-- A command before its arguments are read. -/
structure Verb where
  name : String
  purpose : String
  settings : List Setting
  /-- The operands, each with what it is for. -/
  operands : List (String × String)
  /-- The command, if all that it needs was given. -/
  command? : Reading → Option Command

/-- The commands. -/
def verbs : List Verb :=
  [{ name := "convert"
     purpose := "Convert a document to another format"
     settings := [.target, .source, .output]
     operands := [("input", "Path to the input document")]
     command? r := do
      return .convert (← r.operands.head?) (← r.value? .target) (r.value? .source)
        (r.value? .output) },
   { name := "inspect"
     purpose := "Print the normalized intermediate representation as JSON"
     settings := [.source]
     operands := [("input", "Path to the input document")]
     command? r := do return .inspect (← r.operands.head?) (r.value? .source) },
   { name := "validate"
     purpose := "Validate an intermediate representation JSON file"
     settings := []
     operands := [("path", "Path to the JSON file")]
     command? r := do return .validate (← r.operands.head?) },
   { name := "list-formats"
     purpose := "List available formats"
     settings := []
     operands := []
     command? _ := some .listFormats }]

/-- The command that explains commands. -/
def helpName : String := "help"

/-- What is asked for. -/
inductive Request where
  | run (configuration : Option String) (command : Command)
  /-- An explanation of the program, or of one command. -/
  | help (verb : Option String)
  | version
  /-- The arguments make no sense. -/
  | refused
  deriving DecidableEq, Repr

/-- What may be said at a place of the command line: before the command, or after it. -/
structure Level where
  settings : List Setting
  operandCount : Nat
  /-- The command after which the arguments stand, if they do. -/
  verb : Option String

namespace Level

/-- An argument by its form. -/
inductive Token where
  | help
  | version
  | setting (s : Setting) (value : Option String)
  | endOfSettings
  | word (s : String)
  deriving DecidableEq, Repr

/-- Whether an argument can not be a value or an operand. -/
def isDashed (argument : String) : Bool :=
  match argument.toList with
  | '-' :: _ :: _ => true
  | _ => false

/-- A name in an argument, and what follows the first equals sign. -/
def splitValue (s : List Char) : List Char × Option (List Char) :=
  match Text.splitOnce? ['='] s with
  | some (name, value) => (name, some value)
  | none => (s, none)

/-- What a name with two dashes asks for. -/
def nameToken? (l : Level) (s : List Char) : Option Token :=
  let (name, value) := splitValue s
  match l.settings.find? fun t => t.name.toList == name with
  | some t => some (.setting t (value.map String.ofList))
  | none =>
    if value.isSome then none
    else if name == "help".toList then some .help
    else if name == "version".toList && l.verb.isNone then some .version
    else none

/-- What a letter with one dash asks for, when some text follows it. -/
def letterToken? (l : Level) (c : Char) (rest : List Char) : Option Token :=
  match l.settings.find? fun t => t.letter == c with
  | some t =>
    match rest with
    | [] => some (.setting t none)
    | '=' :: value => some (.setting t (some (String.ofList value)))
    | value => some (.setting t (some (String.ofList value)))
  | none =>
    if c == 'h' then some .help
    else if c == 'V' && l.verb.isNone then some .version
    else none

/-- The form of an argument, if it is one that is known. -/
def token? (l : Level) (argument : String) : Option Token :=
  match argument.toList with
  | ['-', '-'] => some .endOfSettings
  | '-' :: '-' :: s => l.nameToken? s
  | '-' :: c :: rest => l.letterToken? c rest
  | _ => some (.word argument)

/-- A reading after a setting is set, unless it was set before. -/
def set? (r : Reading) (s : Setting) (value : String) : Except Request Reading :=
  if (r.value? s).isSome then .error .refused
  else .ok { r with values := r.values ++ [(s, value)] }

/-- A reading after another operand, if there is a place for it. -/
def addOperand? (l : Level) (r : Reading) (operand : String) : Except Request Reading :=
  if r.operands.length < l.operandCount then .ok { r with operands := r.operands ++ [operand] }
  else .error .refused

/-- Whether an argument is a command. -/
def isCommand (l : Level) (word : String) : Bool :=
  l.verb.isNone && (word == helpName || verbs.any fun v => v.name == word)

/-- What arguments say, or the request that ends their reading. -/
def read (l : Level) (r : Reading) : List String → Except Request Reading
  | [] => .ok r
  | argument :: rest =>
    match l.token? argument with
    | none => .error .refused
    | some .help => .error (.help l.verb)
    | some .version => .error .version
    | some .endOfSettings => rest.foldlM l.addOperand? r
    | some (.setting s (some value)) =>
      match set? r s value with
      | .error e => .error e
      | .ok r => read l r rest
    | some (.setting s none) =>
      match rest with
      | [] => .error .refused
      | value :: rest =>
        if isDashed value then .error .refused
        else match set? r s value with
          | .error e => .error e
          | .ok r => read l r rest
    | some (.word word) =>
      if l.isCommand word then .ok { r with command := some (word, rest) }
      else match l.addOperand? r word with
        | .error e => .error e
        | .ok r => read l r rest

end Level

namespace Request

/-- Where the arguments before the command stand. -/
def root : Level := ⟨[.configuration], 0, none⟩

/-- What is asked for after the command that explains commands. -/
def ofHelpArguments : List String → Request
  | [] => .help none
  | [name] =>
    if name == helpName || verbs.any fun v => v.name == name then .help (some name) else .refused
  | _ => .refused

/-- What is asked for after a command, where a configuration may have been set before it. -/
def ofVerb (v : Verb) (configuration : Option String) (arguments : List String) : Request :=
  match Level.read ⟨.configuration :: v.settings, v.operands.length, some v.name⟩ {} arguments with
  | .error request => request
  | .ok r =>
    match v.command? r with
    | some command => .run ((r.value? .configuration).or configuration) command
    | none => .refused

/-- What arguments ask for. -/
def ofArguments (arguments : List String) : Request :=
  match root.read {} arguments with
  | .error request => request
  | .ok r =>
    match r.command with
    | none => .refused
    | some (name, rest) =>
      match verbs.find? fun v => v.name == name with
      | some v => ofVerb v (r.value? .configuration) rest
      | none => ofHelpArguments rest

end Request

end Interdoc.CommandLine

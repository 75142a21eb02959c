import Interdoc.CommandLine.Request

/-!
# Explanations of the command line

The explanation of the program and of its commands is made from the list of the commands.
-/

namespace Interdoc.CommandLine

/-- The name and the version of the program. -/
def programName : String := "docmorph"

/-- The line that tells the version. -/
def versionLine : String := programName ++ " 0.1.0\n"

/-- Rows of two columns, indented by two spaces; the second column is aligned. -/
def columns (rows : List (String × String)) : String :=
  let width := (rows.map fun row => row.1.length).foldl max 0
  let line (row : String × String) : String :=
    "  " ++ row.1 ++ String.ofList (List.replicate (width - row.1.length + 2) ' ') ++ row.2 ++ "\n"
  String.join (rows.map line)

/-- A title and rows below it. -/
def block (title : String) (rows : List (String × String)) : String :=
  if rows.isEmpty then "" else "\n" ++ title ++ ":\n" ++ columns rows

/-- The row for a setting. -/
def Setting.row (s : Setting) : String × String :=
  (String.ofList ['-', s.letter] ++ ", --" ++ s.name ++ " <" ++ s.name ++ ">", s.purpose)

/-- The row for the explanations. -/
def helpRow : String × String := ("-h, --help", "Print help")

/-- The explanation of the program. -/
def programHelp : String :=
  "Convert documents between Markdown, LaTeX and DOCX\n\n" ++
    "Usage: " ++ programName ++ " [OPTIONS] <COMMAND>\n" ++
    block "Commands" (verbs.map (fun v => (v.name, v.purpose)) ++
      [(helpName, "Print this message or the help of the given subcommand(s)")]) ++
    block "Options" [Setting.row .configuration, helpRow, ("-V, --version", "Print version")]

/-- The explanation of a command. -/
def Verb.help (v : Verb) : String :=
  let required :=
    if v.settings.contains .target then " --to <to>" else ""
  let operands := String.join (v.operands.map fun (name, _) => " <" ++ name ++ ">")
  v.purpose ++ "\n\nUsage: " ++ programName ++ " " ++ v.name ++ " [OPTIONS]" ++ required ++
    operands ++ "\n" ++
    block "Arguments" (v.operands.map fun (name, purpose) => ("<" ++ name ++ ">", purpose)) ++
    block "Options" (v.settings.map Setting.row ++ [Setting.row .configuration, helpRow])

/-- The explanation of the program, or of a command. -/
def helpText (verb : Option String) : String :=
  match verb.bind fun name => verbs.find? fun v => v.name == name with
  | some v => v.help
  | none => programHelp

end Interdoc.CommandLine

import Interdoc.Configuration
import Interdoc.Docx.Reader
import Interdoc.Docx.Writer
import Interdoc.Format
import Interdoc.Latex.Block
import Interdoc.Latex.Printer
import Interdoc.Markdown.OfDocument
import Interdoc.Markdown.Parser
import Interdoc.Markdown.Printer
import Interdoc.Registry

/-!
# The standard formats

LaTeX and Markdown are texts and every text can be read.  A word-processing package can be broken.
The registry of these three formats takes their options from a configuration.
-/

namespace Interdoc.Format

/-- LaTeX, written with some options. -/
def latex (o : Latex.Options) : Format where
  name := "latex"
  description := "LaTeX article body (sectioning, lists, tabular, verbatim)"
  extensions := ["tex", "latex"]
  read := readText Latex.parse
  write := writeText (Latex.print o)

/-- Markdown, written with some options. -/
def markdown (o : Markdown.Options) : Format where
  name := "markdown"
  description := "CommonMark Markdown with GFM tables and strikethrough"
  extensions := ["md", "markdown"]
  read := readText Markdown.readDocument
  write := writeText fun d => Markdown.print o (Markdown.Node.ofDocument d)

/-- Word-processing packages, written with some options. -/
def docx (o : Docx.Options) : Format where
  name := "docx"
  description := "Office Open XML word-processing document"
  extensions := ["docx"]
  isBinary := true
  read bytes := match Docx.parse? bytes with
    | .ok d => .ok d
    | .error fault => .error (.package fault)
  write d := .ok (Docx.write o d)

end Interdoc.Format

namespace Interdoc.Registry

/-- The standard formats with the options of a configuration. -/
def ofConfiguration (c : Configuration) : Registry :=
  ofList [.markdown c.markdown, .latex c.latex, .docx c.docx]

/-- The standard formats with their standard options. -/
def standard : Registry :=
  ofList [.markdown {}, .latex {}, .docx .standard]

end Interdoc.Registry

import Interdoc.CommandLine.Execution
import Interdoc.CommandLine.Files
import Interdoc.CommandLine.Help
import Interdoc.CommandLine.Request
import Interdoc.Configuration
import Interdoc.Document.Basic
import Interdoc.Document.Checked
import Interdoc.Document.Encoding
import Interdoc.Document.Normalize
import Interdoc.Document.PlainText
import Interdoc.Document.Validation
import Interdoc.Docx.Body
import Interdoc.Docx.Layout
import Interdoc.Docx.Package
import Interdoc.Docx.Paragraph
import Interdoc.Docx.Reader
import Interdoc.Docx.Rendering
import Interdoc.Docx.Run
import Interdoc.Docx.Style
import Interdoc.Docx.Writer
import Interdoc.Error
import Interdoc.Format
import Interdoc.Html.Blocks
import Interdoc.Html.Builder
import Interdoc.Html.Category
import Interdoc.Html.Doctype
import Interdoc.Html.Draft
import Interdoc.Html.Entity
import Interdoc.Html.Formatting
import Interdoc.Html.Mode.Body
import Interdoc.Html.Mode.Foreign
import Interdoc.Html.Mode.Head
import Interdoc.Html.Mode.Outer
import Interdoc.Html.Mode.Table
import Interdoc.Html.Node
import Interdoc.Html.Parser
import Interdoc.Html.Piece
import Interdoc.Html.Reference
import Interdoc.Html.Token
import Interdoc.Json.Basic
import Interdoc.Json.Parser
import Interdoc.Json.Printer
import Interdoc.Latex.Block
import Interdoc.Latex.Command
import Interdoc.Latex.Group
import Interdoc.Latex.Inline
import Interdoc.Latex.Item
import Interdoc.Latex.Listing
import Interdoc.Latex.Printer
import Interdoc.Latex.Segment
import Interdoc.Latex.Tabular
import Interdoc.Latex.Weight
import Interdoc.Main
import Interdoc.Markdown.Autolink
import Interdoc.Markdown.BlockParser
import Interdoc.Markdown.Emphasis
import Interdoc.Markdown.Escape
import Interdoc.Markdown.Line
import Interdoc.Markdown.LinkSource
import Interdoc.Markdown.OfDocument
import Interdoc.Markdown.Opening
import Interdoc.Markdown.Outline
import Interdoc.Markdown.Page
import Interdoc.Markdown.Parser
import Interdoc.Markdown.Printer
import Interdoc.Markdown.RawHtml
import Interdoc.Markdown.Row
import Interdoc.Markdown.SpanParser
import Interdoc.Markdown.ToDocument
import Interdoc.Markdown.Tree
import Interdoc.Markdown.Underline
import Interdoc.Number.Binary64
import Interdoc.Registry
import Interdoc.Registry.Standard
import Interdoc.Text.Blank
import Interdoc.Text.CaseFold
import Interdoc.Text.Hexadecimal
import Interdoc.Text.Punctuation
import Interdoc.Text.Utf8
import Interdoc.Toml.Parser
import Interdoc.Toml.Scalar
import Interdoc.Toml.Section
import Interdoc.Toml.Value
import Interdoc.Xml.Event
import Interdoc.Xml.Fault
import Interdoc.Xml.Markup
import Interdoc.Xml.Reference
import Interdoc.Xml.Tag
import Interdoc.Xml.Tree
import Interdoc.Zip.Archive
import Interdoc.Zip.Inflate
import Interdoc.Proofs.Document.Congruence
import Interdoc.Proofs.Latex.Inert
import Interdoc.Proofs.Text.Lines
import Interdoc.Proofs.Text.Trim
import Interdoc.Proofs.Latex.InlineRoundTrip
import Interdoc.Proofs.Latex.Line
import Interdoc.Proofs.Latex.Nesting
import Interdoc.Proofs.Latex.Reading
import Interdoc.Proofs.Latex.PrintedBlocks
import Interdoc.Proofs.Latex.Table
import Interdoc.Proofs.Latex.Image
import Interdoc.Proofs.Document.VisibleText
import Interdoc.Proofs.Latex.RoundTrip
import Interdoc.Proofs.Latex.Verbatim
import Interdoc.Proofs.Latex.Projection
import Interdoc.Proofs.Latex.Matching
import Interdoc.Proofs.Latex.Composition
import Interdoc.Proofs.Latex.CommentLine
import Interdoc.Proofs.Latex.Title
import Interdoc.Proofs.Latex.VerbatimLine
import Interdoc.Proofs.Latex.Language
import Interdoc.Proofs.Latex.TabularBody
import Interdoc.Proofs.Latex.Wrapping
import Interdoc.Proofs.Registry.History
import Interdoc.Proofs.Document.Normal
import Interdoc.Proofs.Json.Members
import Interdoc.Proofs.Document.Encoded
import Interdoc.Proofs.Document.Pruned
import Interdoc.Proofs.Document.Validated
import Interdoc.Proofs.Format.Canonical
import Interdoc.Proofs.Docx.Escape
import Interdoc.Proofs.Xml.Meaning
import Interdoc.Proofs.Text.Utf8
import Interdoc.Proofs.Zip.Archive
import Interdoc.Proofs.Xml.Tags
import Interdoc.Proofs.Xml.Printing
import Interdoc.Proofs.Docx.Runs
import Interdoc.Proofs.Docx.Paragraphs
import Interdoc.Proofs.Docx.Items
import Interdoc.Proofs.Docx.Numbering
import Interdoc.Proofs.Html.Nesting
import Interdoc.Proofs.Html.Reads
import Interdoc.Proofs.Html.Tags
import Interdoc.Proofs.Docx.Expressible
import Interdoc.Proofs.Docx.PlainHtml
import Interdoc.Proofs.Docx.TableHtml
import Interdoc.Proofs.Docx.Emission
import Interdoc.Proofs.Docx.WellNested
import Interdoc.Proofs.Docx.ListRuns
import Interdoc.Proofs.Docx.ListStructure
import Interdoc.Proofs.Docx.Glyphs
import Interdoc.Proofs.Docx.Formatting
import Interdoc.Proofs.Docx.Links
import Interdoc.Proofs.Docx.ListRendering
import Interdoc.Proofs.Docx.BlockRendering
import Interdoc.Proofs.Docx.Opening
import Interdoc.Proofs.Docx.ListNumbers
import Interdoc.Proofs.Docx.Looks
import Interdoc.Proofs.Docx.RoundTrip
import Interdoc.Proofs.Docx.AlikeBodies
import Interdoc.Proofs.Docx.Texts
import Interdoc.Proofs.Docx.RaggedTables
import Interdoc.Proofs.Docx.ItemParagraphs
import Interdoc.Proofs.Docx.Neighbours
import Interdoc.Proofs.Docx.DocumentPart
import Interdoc.Proofs.Docx.Wrappers
import Interdoc.Proofs.Xml.Places
import Interdoc.Proofs.Html.PlainText
import Interdoc.Proofs.Docx.ShownText
import Interdoc.Proofs.Docx.PlainText
import Interdoc.Proofs.Markdown.Spans
import Interdoc.Proofs.Markdown.Tables
import Interdoc.Proofs.Markdown.Trees
import Interdoc.Proofs.Docx.RawText
import Interdoc.Proofs.Document.Strings
import Interdoc.Proofs.Html.Reading
import Interdoc.Proofs.Html.Conservation
import Interdoc.Proofs.Markdown.Underline
import Interdoc.Proofs.Markdown.UnderlinedText
import Interdoc.Proofs.Markdown.HtmlBlocks
import Interdoc.Proofs.Text.Decimal
import Interdoc.Proofs.Json.Pointer
import Interdoc.Proofs.Document.Clauses
import Interdoc.Proofs.Document.Locality
import Interdoc.Proofs.Registry.Extensions
import Interdoc.Proofs.Latex.GroupGrammar
import Interdoc.Proofs.Text.Occurrences
import Interdoc.Proofs.Latex.ItemPartition
import Interdoc.Proofs.Text.Offset
import Interdoc.Proofs.Latex.Offset.Groups
import Interdoc.Proofs.Latex.Offset.Inline
import Interdoc.Proofs.Latex.Offset.Closing
import Interdoc.Proofs.Latex.OpeningMarkers
import Interdoc.Proofs.Latex.Offset.Blocks
import Interdoc.Proofs.Docx.SegmentNesting
import Interdoc.Proofs.Docx.CodeLine
import Interdoc.Proofs.Xml.Balance
import Interdoc.Proofs.Xml.Building
import Interdoc.Proofs.Html.Lexing
import Interdoc.Proofs.Html.Building
import Interdoc.Proofs.Html.TreeSteps
import Interdoc.Proofs.Html.TableSteps
import Interdoc.Proofs.Html.Parse
import Interdoc.Proofs.Docx.ParsedHtml
import Interdoc.Proofs.Docx.HtmlCharacters
import Interdoc.Proofs.Docx.NullCharacters

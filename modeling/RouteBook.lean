import RouteBook.Bundle
import RouteBook.Check
import RouteBook.Command.Program
import RouteBook.Command.Request
import RouteBook.Command.Session
import RouteBook.Command.Usage
import RouteBook.Config
import RouteBook.Config.Load
import RouteBook.Descriptor
import RouteBook.DocComment.Basic
import RouteBook.DocComment.Entry
import RouteBook.DocComment.Parser
import RouteBook.Endpoint
import RouteBook.Extraction
import RouteBook.Field
import RouteBook.FileTree
import RouteBook.Glob
import RouteBook.Grouping
import RouteBook.Html.Basic
import RouteBook.Html.Page
import RouteBook.Html.Style
import RouteBook.Json.Printer
import RouteBook.Json.Reader
import RouteBook.Literal
import RouteBook.LogRecord
import RouteBook.Main
import RouteBook.Markdown
import RouteBook.Method
import RouteBook.Number.Binary64
import RouteBook.Number.Numeral
import RouteBook.Number.Shortest
import RouteBook.OpenApi
import RouteBook.OperationId
import RouteBook.Pairing
import RouteBook.Pairs
import RouteBook.Path
import RouteBook.Publication
import RouteBook.RouteCalls
import RouteBook.RouteFact
import RouteBook.RouteFiles
import RouteBook.Source.Binding
import RouteBook.Source.Class
import RouteBook.Source.Cursor
import RouteBook.Source.Element
import RouteBook.Source.Expression
import RouteBook.Source.Parser
import RouteBook.Source.Rule
import RouteBook.Source.Semicolon
import RouteBook.Source.Statement
import RouteBook.Source.Token
import RouteBook.Source.Tree
import RouteBook.Source.Type
import RouteBook.Text.Base64
import RouteBook.Text.Blank
import RouteBook.Text.Case
import RouteBook.Text.Digit
import RouteBook.Text.Printable
import RouteBook.Text.Ranges
import RouteBook.Text.Similar
import RouteBook.Text.Utf8
import RouteBook.Text.Word
import RouteBook.Value.Basic
import RouteBook.Value.Calendar
import RouteBook.Yaml.Cursor
import RouteBook.Yaml.Error
import RouteBook.Yaml.Load
import RouteBook.Yaml.Node
import RouteBook.Yaml.Node.Reader
import RouteBook.Yaml.Pen
import RouteBook.Yaml.Printer
import RouteBook.Yaml.Scalar
import RouteBook.Yaml.Style
import RouteBook.Yaml.Timestamp
import RouteBook.Yaml.Token
import RouteBook.Yaml.Token.Reader
import RouteBook.Yaml.Token.Scalar
import RouteBook.Proofs.Except
import RouteBook.Proofs.Hex
import RouteBook.Proofs.Literal
import RouteBook.Proofs.LiteralText
import RouteBook.Proofs.Pairs
import RouteBook.Proofs.Descriptor
import RouteBook.Proofs.DocComment
import RouteBook.Proofs.RouteCalls
import RouteBook.Proofs.Endpoint
import RouteBook.Proofs.Placeholders
import RouteBook.Proofs.Extraction
import RouteBook.Proofs.OperationId
import RouteBook.Proofs.OpenApi
import RouteBook.Proofs.Board
import RouteBook.Proofs.UniqueIds
import RouteBook.Proofs.Value
import RouteBook.Proofs.Json.Syntax
import RouteBook.Proofs.Json.Grammar
import RouteBook.Proofs.Json
import RouteBook.Proofs.Bundle
import RouteBook.Proofs.Encoding
import RouteBook.Proofs.Grouping
import RouteBook.Proofs.Markdown
import RouteBook.Proofs.Consistency
import RouteBook.Proofs.Html.Reading
import RouteBook.Proofs.Html.Outline
import RouteBook.Proofs.Html.Shape
import RouteBook.Proofs.Html.Headings
import RouteBook.Proofs.Sections
import RouteBook.Proofs.Yaml.Cursor
import RouteBook.Proofs.Yaml.Pen
import RouteBook.Proofs.Yaml.Style
import RouteBook.Proofs.Yaml.Bare
import RouteBook.Proofs.Yaml.Quoted
import RouteBook.Proofs.Yaml.Single
import RouteBook.Proofs.Yaml.Double
import RouteBook.Proofs.Yaml.Scan
import RouteBook.Proofs.Yaml.Marks
import RouteBook.Proofs.Yaml.Scalar
import RouteBook.Proofs.Yaml.Block
import RouteBook.Proofs.Yaml.Node
import RouteBook.Proofs.Yaml.Fault
import RouteBook.Proofs.Yaml.Document
import RouteBook.Proofs.Yaml.Load
import RouteBook.Proofs.Agreement
import RouteBook.Proofs.FileTree
import RouteBook.Proofs.FileAction
import RouteBook.Proofs.Glob
import RouteBook.Proofs.RouteFiles
import RouteBook.Proofs.Publication
import RouteBook.Proofs.Command
import RouteBook.Proofs.Utf8
import RouteBook.Proofs.Config
import RouteBook.Proofs.Yaml.Numeral
import RouteBook.Proofs.Yaml.Flow
import RouteBook.Proofs.Yaml.JsonText
import RouteBook.Proofs.Yaml.JsonLoad
import RouteBook.Proofs.JsonSettings
import RouteBook.Proofs.DocForms
import RouteBook.Proofs.DocPrint
import RouteBook.Proofs.DocLines
import RouteBook.Proofs.Timestamp
import RouteBook.Proofs.Workers
import RouteBook.Proofs.Isolation
import RouteBook.Proofs.Delivery
import RouteBook.Proofs.Pairing
import RouteBook.Proofs.Spelling
import RouteBook.Proofs.Source.Cursor
import RouteBook.Proofs.Source.Token
import RouteBook.Proofs.Source.Call
import RouteBook.Proofs.Source.Chain
import RouteBook.Proofs.Source.Listing
import RouteBook.Proofs.Source.Preorder
import RouteBook.Proofs.RouteOrder
import RouteBook.Proofs.RouteText
import RouteBook.Proofs.RouteChain
import RouteBook.Proofs.Records
import RouteBook.Proofs.StatusCode
import RouteBook.Proofs.Table
import RouteBook.Proofs.Validation
import RouteBook.Proofs.LetterCase
import RouteBook.Proofs.MethodName

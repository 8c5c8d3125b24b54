import OriginTags.Config
import OriginTags.Decimal.Binary64
import OriginTags.Decimal.Shortest
import OriginTags.Dictionary
import OriginTags.Files.Path
import OriginTags.Files.Spelling
import OriginTags.Files.Tree
import OriginTags.Glob.Pattern
import OriginTags.Glob.Regex
import OriginTags.Hook
import OriginTags.Json.Basic
import OriginTags.Json.Reader
import OriginTags.Json.Skip
import OriginTags.Json.Writer
import OriginTags.Log
import OriginTags.Markup.Basic
import OriginTags.Markup.Import
import OriginTags.Markup.Tree
import OriginTags.Options.Basic
import OriginTags.Options.Reader
import OriginTags.Proofs.Splice.Weave
import OriginTags.Proofs.Text.Bytes
import OriginTags.Proofs.Text.Decoding
import OriginTags.Tagging.Attributes
import OriginTags.Tagging.Context
import OriginTags.Tagging.Exclusion
import OriginTags.Tagging.Export
import OriginTags.Tagging.Insertion
import OriginTags.Tagging.Library
import OriginTags.Tagging.Metadata
import OriginTags.Tagging.Splice
import OriginTags.Tagging.Statistics
import OriginTags.Tagging.Tagger
import OriginTags.Text.Base64
import OriginTags.Text.Blank
import OriginTags.Text.Bytes
import OriginTags.Text.Decoding
import OriginTags.Text.Digit
import OriginTags.Text.Entity
import OriginTags.Text.Identifier
import OriginTags.Text.Percent
import OriginTags.Text.Position
import OriginTags.Trace
import OriginTags.Tsx.Class
import OriginTags.Tsx.Element
import OriginTags.Tsx.Expression
import OriginTags.Tsx.Function
import OriginTags.Tsx.Linkage
import OriginTags.Tsx.Literal
import OriginTags.Tsx.Modifier
import OriginTags.Tsx.Parser
import OriginTags.Tsx.Pattern
import OriginTags.Tsx.Program
import OriginTags.Tsx.Rule
import OriginTags.Tsx.Scanner
import OriginTags.Tsx.Statement
import OriginTags.Tsx.Token
import OriginTags.Tsx.Type
import OriginTags.Proofs.Tagging.Pass
import OriginTags.Proofs.Json.RoundTrip
import OriginTags.Proofs.Tagging.Insertion
import OriginTags.Proofs.Splice.SourceMap
import OriginTags.Proofs.Splice.Mapping
import OriginTags.Proofs.Files.Path
import OriginTags.Proofs.Files.Spelling
import OriginTags.Proofs.Files.Walk
import OriginTags.Proofs.Files.Resolve
import OriginTags.Proofs.Files.Agreement
import OriginTags.Proofs.Tagging.Export
import OriginTags.Proofs.Tagging.ExportOrder
import OriginTags.Proofs.Tagging.Statistics
import OriginTags.Proofs.Tagging.Attributes
import OriginTags.Proofs.Markup.Standing
import OriginTags.Proofs.Tsx.Reads
import OriginTags.Proofs.Tsx.Reads.Type
import OriginTags.Proofs.Tsx.Reads.Expression
import OriginTags.Proofs.Tsx.Reads.Statement
import OriginTags.Proofs.Tsx.Reads.Element
import OriginTags.Proofs.Tsx.Rejection
import OriginTags.Proofs.Tagging.Delimiter
import OriginTags.Proofs.Tagging.SplitDelimiter
import OriginTags.Proofs.Tagging.Session
import OriginTags.Proofs.Tagging.Account
import OriginTags.Proofs.Tagging.Repair
import OriginTags.Proofs.Glob.Regex
import OriginTags.Proofs.Glob.Language
import OriginTags.Proofs.Glob.Compile
import OriginTags.Proofs.Tagging.AttributeName
import OriginTags.Proofs.Dictionary
import OriginTags.Proofs.Tagging.History
import OriginTags.Proofs.Text.Position
import OriginTags.Proofs.Text.Suffix
import OriginTags.Proofs.Tagging.Place
import OriginTags.Proofs.Tagging.Values
import OriginTags.Proofs.Json.Numeral
import OriginTags.Proofs.Json.Document
import OriginTags.Proofs.Json.Ending
import OriginTags.Proofs.Tagging.Metadata
import OriginTags.Proofs.Config.Depth
import OriginTags.Proofs.Text.Boundary
import OriginTags.Proofs.Tagging.InsertionPoint
import OriginTags.Proofs.Splice.Order
import OriginTags.Proofs.Text.LineTable
import OriginTags.Proofs.Tagging.Location
import OriginTags.Proofs.Tagging.Calls
import OriginTags.Proofs.Markup.Lowering
import OriginTags.Proofs.Glob.Acceptance
import OriginTags.Proofs.Markup.Content
import OriginTags.Proofs.Options.Layers
import OriginTags.Proofs.Files.Relative
import OriginTags.Proofs.Tagging.Reports
import OriginTags.Proofs.Tagging.ExportTarget
import OriginTags.Proofs.Tagging.Packages
import OriginTags.Proofs.Text.ByteOrder
import OriginTags.Proofs.Tagging.Summary
import OriginTags.Proofs.Text.Alphabet

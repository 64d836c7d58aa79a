import ApiSurface.Cli.Arguments
import ApiSurface.Cli.Failure
import ApiSurface.Cli.FileTree
import ApiSurface.Cli.Generation
import ApiSurface.Cli.Host
import ApiSurface.Cli.Invocation
import ApiSurface.Cli.Run
import ApiSurface.Cli.Usage
import ApiSurface.Cli.Work
import ApiSurface.Client.Basic
import ApiSurface.Client.Build
import ApiSurface.Client.Documentation
import ApiSurface.Client.Files
import ApiSurface.Client.Form
import ApiSurface.Client.Generate
import ApiSurface.Client.Marker
import ApiSurface.Client.Partition
import ApiSurface.Client.Reader
import ApiSurface.Client.Statement
import ApiSurface.Client.Templates
import ApiSurface.Config
import ApiSurface.Decimal.Binary64
import ApiSurface.Decimal.Shortest
import ApiSurface.DocBlock.Basic
import ApiSurface.DocBlock.Cleanup
import ApiSurface.DocBlock.Comment
import ApiSurface.DocBlock.Form
import ApiSurface.DocBlock.Printer
import ApiSurface.DocBlock.Reader
import ApiSurface.DocBlock.Section
import ApiSurface.Docgen.Attempt
import ApiSurface.Docgen.Fault
import ApiSurface.Docgen.Report
import ApiSurface.Docgen.Site
import ApiSurface.Fault
import ApiSurface.Hint.Reader
import ApiSurface.Hint.Writer
import ApiSurface.Http.Request
import ApiSurface.Json.Pointer
import ApiSurface.Json.Quantity
import ApiSurface.Json.Reader
import ApiSurface.Json.Token
import ApiSurface.Json.Value
import ApiSurface.Json.Writer
import ApiSurface.Keyed
import ApiSurface.Main
import ApiSurface.Name.Allocator
import ApiSurface.Name.Identifier
import ApiSurface.Name.Words
import ApiSurface.OpenApi.Composition
import ApiSurface.OpenApi.Dialect
import ApiSurface.OpenApi.Document
import ApiSurface.OpenApi.Resolution
import ApiSurface.Operation.Basic
import ApiSurface.Operation.Body
import ApiSurface.Operation.Extraction
import ApiSurface.Operation.Parameter
import ApiSurface.Output
import ApiSurface.Paths
import ApiSurface.Proofs.Client.Arguments
import ApiSurface.Proofs.Client.Capture
import ApiSurface.Proofs.Client.ClassNames
import ApiSurface.Proofs.Client.ClassText
import ApiSurface.Proofs.Client.Coherence
import ApiSurface.Proofs.Client.Documentation
import ApiSurface.Proofs.Client.FilePaths
import ApiSurface.Proofs.Client.Form
import ApiSurface.Proofs.Client.Members
import ApiSurface.Proofs.Client.Methods
import ApiSurface.Proofs.Client.Naming
import ApiSurface.Proofs.Client.Path
import ApiSurface.Proofs.Client.PathEscape
import ApiSurface.Proofs.Client.PathPiece
import ApiSurface.Proofs.Client.Stored
import ApiSurface.Proofs.Client.Topics
import ApiSurface.Proofs.Client.Unresolved
import ApiSurface.Proofs.DocBlock.Cleanup
import ApiSurface.Proofs.DocBlock.Comment
import ApiSurface.Proofs.DocBlock.Entry
import ApiSurface.Proofs.DocBlock.Expressible
import ApiSurface.Proofs.DocBlock.Gutter
import ApiSurface.Proofs.DocBlock.Header
import ApiSurface.Proofs.DocBlock.Layout
import ApiSurface.Proofs.DocBlock.Reading
import ApiSurface.Proofs.DocBlock.RoundTrip
import ApiSurface.Proofs.DocBlock.Stray
import ApiSurface.Proofs.DocBlock.Tag
import ApiSurface.Proofs.DocBlock.Weight
import ApiSurface.Proofs.DocBlock.Wrapping
import ApiSurface.Proofs.Docgen.Attempt
import ApiSurface.Proofs.Docgen.Insertion
import ApiSurface.Proofs.Docgen.Layout
import ApiSurface.Proofs.Docgen.Site
import ApiSurface.Proofs.Fault
import ApiSurface.Proofs.Hint.Agreement
import ApiSurface.Proofs.Http.Request
import ApiSurface.Proofs.Json.Distinct
import ApiSurface.Proofs.Json.Members
import ApiSurface.Proofs.Json.Nesting
import ApiSurface.Proofs.Json.Reader
import ApiSurface.Proofs.Json.Token
import ApiSurface.Proofs.Json.Writer
import ApiSurface.Proofs.Keyed
import ApiSurface.Proofs.Name.Allocator
import ApiSurface.Proofs.Name.Identifier
import ApiSurface.Proofs.Name.Snake
import ApiSurface.Proofs.Name.Words
import ApiSurface.Proofs.OpenApi.Composition
import ApiSurface.Proofs.OpenApi.Confinement
import ApiSurface.Proofs.OpenApi.Copies
import ApiSurface.Proofs.OpenApi.Cuts
import ApiSurface.Proofs.OpenApi.Dialect
import ApiSurface.Proofs.OpenApi.Document
import ApiSurface.Proofs.OpenApi.Expansion
import ApiSurface.Proofs.OpenApi.Kept
import ApiSurface.Proofs.OpenApi.Marks
import ApiSurface.Proofs.OpenApi.MergeInvariant
import ApiSurface.Proofs.OpenApi.Merged
import ApiSurface.Proofs.OpenApi.Merging
import ApiSurface.Proofs.OpenApi.Mirror
import ApiSurface.Proofs.OpenApi.Preservation
import ApiSurface.Proofs.OpenApi.Reuse
import ApiSurface.Proofs.OpenApi.Settled
import ApiSurface.Proofs.OpenApi.Validity
import ApiSurface.Proofs.Operation.Answer
import ApiSurface.Proofs.Operation.Body
import ApiSurface.Proofs.Operation.Extraction
import ApiSurface.Proofs.Operation.Source
import ApiSurface.Proofs.Schema.Annotation
import ApiSurface.Proofs.Schema.Bounded
import ApiSurface.Proofs.Schema.Following
import ApiSurface.Proofs.Schema.Semantics
import ApiSurface.Proofs.Template.Filling
import ApiSurface.Proofs.Text.Blank
import ApiSurface.Proofs.Text.Case
import ApiSurface.Proofs.Text.Line
import ApiSurface.Proofs.Text.Occurrence
import ApiSurface.Proofs.Text.Percent
import ApiSurface.Proofs.Text.Search
import ApiSurface.Proofs.Text.Trimmed
import ApiSurface.Proofs.Text.Words
import ApiSurface.Proofs.Tool.Acceptance
import ApiSurface.Proofs.Tool.Definitions
import ApiSurface.Proofs.Tool.Exposure
import ApiSurface.Proofs.Tool.Field
import ApiSurface.Proofs.Tool.Model
import ApiSurface.Proofs.Tool.Omission
import ApiSurface.Proofs.Tool.Operation
import ApiSurface.Proofs.Tool.Registration
import ApiSurface.Proofs.Tool.Registry
import ApiSurface.Proofs.Tool.Validation
import ApiSurface.Proofs.TypeScript.BlockComment
import ApiSurface.Proofs.TypeScript.SchemaType
import ApiSurface.Proofs.TypeScript.TemplateLiteral
import ApiSurface.Proofs.TypeScript.TypeForm
import ApiSurface.Proofs.TypeScript.TypeText
import ApiSurface.Schema.Basic
import ApiSurface.Schema.Library
import ApiSurface.Schema.Reader
import ApiSurface.Schema.Validation
import ApiSurface.Schema.Validator
import ApiSurface.Schema.Violation
import ApiSurface.Template.Basic
import ApiSurface.Template.Reader
import ApiSurface.Text.Blank
import ApiSurface.Text.Case
import ApiSurface.Text.Line
import ApiSurface.Text.Percent
import ApiSurface.Text.Search
import ApiSurface.Toml.Reader
import ApiSurface.Toml.Value
import ApiSurface.Tool.Basic
import ApiSurface.Tool.Descriptor
import ApiSurface.Tool.Fault
import ApiSurface.Tool.Model
import ApiSurface.Tool.Operation
import ApiSurface.Tool.Registry
import ApiSurface.TypeScript.Function
import ApiSurface.TypeScript.Literal
import ApiSurface.TypeScript.Parser
import ApiSurface.TypeScript.Token
import ApiSurface.TypeScript.Tree
import ApiSurface.TypeScript.Type
import ApiSurface.Verb
import ApiSurface.Yaml.Block
import ApiSurface.Yaml.Cursor
import ApiSurface.Yaml.Node
import ApiSurface.Yaml.Reader
import ApiSurface.Yaml.Scalar
import ApiSurface.Yaml.ScalarText
import ApiSurface.Yaml.Token
import ApiSurface.Yaml.Value

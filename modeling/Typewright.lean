import Typewright.Api.Models
import Typewright.Api.Normal
import Typewright.Api.Operation
import Typewright.CommandLine.Arguments
import Typewright.CommandLine.Generate
import Typewright.CommandLine.Notice
import Typewright.Compile.Options
import Typewright.Compile.Reference
import Typewright.Compile.Render
import Typewright.Compile.Whole
import Typewright.Document.Calendar
import Typewright.Document.Display
import Typewright.Document.Graph
import Typewright.Document.Pointer
import Typewright.Document.Search
import Typewright.Error
import Typewright.External.Program
import Typewright.Identifier
import Typewright.Json.Reader
import Typewright.Json.Writer
import Typewright.Main
import Typewright.Model.Extract
import Typewright.Number.Binary64
import Typewright.Number.Decimal
import Typewright.Number.Numeral
import Typewright.Number.Shortest
import Typewright.Proofs.Api.Closure
import Typewright.Proofs.Api.Dangling
import Typewright.Proofs.Api.Descriptions
import Typewright.Proofs.Api.Index
import Typewright.Proofs.Api.Invariance
import Typewright.Proofs.Api.Normal
import Typewright.Proofs.Api.Operations
import Typewright.Proofs.Api.Registered
import Typewright.Proofs.Api.Renumbered
import Typewright.Proofs.Api.Returns
import Typewright.Proofs.Api.Versions
import Typewright.Proofs.Compile.Alone
import Typewright.Proofs.Compile.Bodies
import Typewright.Proofs.Compile.Chains
import Typewright.Proofs.Compile.Compiled
import Typewright.Proofs.Compile.Coverage
import Typewright.Proofs.Compile.Declared
import Typewright.Proofs.Compile.Displays
import Typewright.Proofs.Compile.Enclosed
import Typewright.Proofs.Compile.Ends
import Typewright.Proofs.Compile.Enumerations
import Typewright.Proofs.Compile.Grows
import Typewright.Proofs.Compile.Keys
import Typewright.Proofs.Compile.Lengths
import Typewright.Proofs.Compile.Lockstep
import Typewright.Proofs.Compile.Met
import Typewright.Proofs.Compile.Names
import Typewright.Proofs.Compile.Operands
import Typewright.Proofs.Compile.Order
import Typewright.Proofs.Compile.Parts
import Typewright.Proofs.Compile.Pointers
import Typewright.Proofs.Compile.Positions
import Typewright.Proofs.Compile.Printed
import Typewright.Proofs.Compile.Reached
import Typewright.Proofs.Compile.Reads
import Typewright.Proofs.Compile.Recursion
import Typewright.Proofs.Compile.Regular
import Typewright.Proofs.Compile.Renumbered
import Typewright.Proofs.Compile.Resolve
import Typewright.Proofs.Compile.Returns
import Typewright.Proofs.Compile.Runs
import Typewright.Proofs.Compile.Slices
import Typewright.Proofs.Compile.Splitting
import Typewright.Proofs.Compile.Sweeps
import Typewright.Proofs.Compile.Terminates
import Typewright.Proofs.Compile.Unreachable
import Typewright.Proofs.Compile.Whole
import Typewright.Proofs.Document.Copies
import Typewright.Proofs.Document.EarlyMarks
import Typewright.Proofs.Document.Entries
import Typewright.Proofs.Document.Forest
import Typewright.Proofs.Document.Pointers
import Typewright.Proofs.Document.Renumbering
import Typewright.Proofs.Document.Search
import Typewright.Proofs.Document.Traversal
import Typewright.Proofs.External.Settled
import Typewright.Proofs.Identifier.Settled
import Typewright.Proofs.Identifier.Shrinking
import Typewright.Proofs.Identifier.Spelling
import Typewright.Proofs.Json.Circular
import Typewright.Proofs.Json.FirstFault
import Typewright.Proofs.Json.Parts
import Typewright.Proofs.Json.Quoted
import Typewright.Proofs.Json.Trees
import Typewright.Proofs.Keyed
import Typewright.Proofs.Model.Dependencies
import Typewright.Proofs.Outcome
import Typewright.Proofs.Reference.Agreement
import Typewright.Proofs.Reference.Linked
import Typewright.Proofs.Reference.Probe
import Typewright.Proofs.Reference.Replaced
import Typewright.Proofs.Reference.Tree
import Typewright.Proofs.Schema.Apart
import Typewright.Proofs.Schema.Copy
import Typewright.Proofs.Schema.Cycles
import Typewright.Proofs.Schema.Definitions
import Typewright.Proofs.Schema.Dependencies
import Typewright.Proofs.Schema.Descriptions
import Typewright.Proofs.Schema.FirstFit
import Typewright.Proofs.Schema.FirstFree
import Typewright.Proofs.Schema.Images
import Typewright.Proofs.Schema.Marks
import Typewright.Proofs.Schema.Mirror
import Typewright.Proofs.Schema.Originals
import Typewright.Proofs.Schema.Preorder
import Typewright.Proofs.Schema.References
import Typewright.Proofs.Schema.Registry
import Typewright.Proofs.Schema.Renumbered
import Typewright.Proofs.Schema.Requests
import Typewright.Proofs.Schema.Titles
import Typewright.Proofs.Settings
import Typewright.Proofs.Text.Blank
import Typewright.Proofs.Text.Characters
import Typewright.Proofs.Text.Escapes
import Typewright.Proofs.Text.Hexadecimal
import Typewright.Proofs.Text.Lower
import Typewright.Proofs.Text.Numerals
import Typewright.Proofs.Text.Search
import Typewright.Proofs.Text.Utf8
import Typewright.Proofs.Toml.Lines
import Typewright.Proofs.Toml.Literal
import Typewright.Proofs.Toml.Tables
import Typewright.Proofs.Toml.Written
import Typewright.Proofs.TypeScript.Blocks
import Typewright.Proofs.TypeScript.Brackets
import Typewright.Proofs.TypeScript.Built
import Typewright.Proofs.TypeScript.Comments
import Typewright.Proofs.TypeScript.Declarations
import Typewright.Proofs.TypeScript.Elements
import Typewright.Proofs.TypeScript.Exports
import Typewright.Proofs.TypeScript.Grammar
import Typewright.Proofs.TypeScript.Heads
import Typewright.Proofs.TypeScript.Inert
import Typewright.Proofs.TypeScript.Lengths
import Typewright.Proofs.TypeScript.Marking
import Typewright.Proofs.TypeScript.Mentions
import Typewright.Proofs.TypeScript.Partners
import Typewright.Proofs.TypeScript.Pieces
import Typewright.Proofs.TypeScript.Reading
import Typewright.Proofs.TypeScript.Steps
import Typewright.Proofs.TypeScript.Types
import Typewright.Proofs.Uri.Percent
import Typewright.Proofs.World.FileAddress
import Typewright.Proofs.World.Loading
import Typewright.Proofs.World.Lookup
import Typewright.Proofs.World.Writing
import Typewright.Reference.Detached
import Typewright.Reference.Link
import Typewright.Reference.Resolve
import Typewright.Schema.Naming
import Typewright.Schema.Standalone
import Typewright.Schema.Structure
import Typewright.Settings
import Typewright.Text.Blank
import Typewright.Text.Case
import Typewright.Text.CodeTable
import Typewright.Text.Plain
import Typewright.Text.Printable
import Typewright.Text.Quoted
import Typewright.Text.Search
import Typewright.Text.Utf8
import Typewright.Text.Word
import Typewright.Toml.Codec
import Typewright.Toml.Layout
import Typewright.Toml.Literal
import Typewright.Toml.Reader
import Typewright.Toml.Scalars
import Typewright.Toml.Values
import Typewright.Toml.Writer
import Typewright.TypeScript.Braces
import Typewright.TypeScript.Declaration
import Typewright.TypeScript.Expression
import Typewright.TypeScript.Split
import Typewright.Uri.Parts
import Typewright.Uri.Percent
import Typewright.Warning
import Typewright.World.Load
import Typewright.World.Outside
import Typewright.World.Path
import Typewright.World.Readers
import Typewright.World.Shell
import Typewright.World.Simulated
import Typewright.Yaml.Cursor
import Typewright.Yaml.Kind
import Typewright.Yaml.Meaning
import Typewright.Yaml.Merge
import Typewright.Yaml.Reader
import Typewright.Yaml.Scalars
import Typewright.Yaml.Timestamp
import Typewright.Yaml.Tokens
import Typewright.Yaml.Tree

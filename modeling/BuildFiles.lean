import BuildFiles.Text.Ranges
import BuildFiles.Text.Blank
import BuildFiles.Text.Word
import BuildFiles.Text.Digit
import BuildFiles.Text.Printable
import BuildFiles.Text.Basic
import BuildFiles.Text.Lines
import BuildFiles.Text.Quoted
import BuildFiles.Entries
import BuildFiles.Binary64
import BuildFiles.Path
import BuildFiles.Datum.Basic
import BuildFiles.Datum.Key
import BuildFiles.Datum.Display
import BuildFiles.Datum.Plain
import BuildFiles.Reader.Fault
import BuildFiles.Reader.Numeral
import BuildFiles.Reader.Lexeme
import BuildFiles.Reader.Stack
import BuildFiles.Reader.Forms
import BuildFiles.Datum.Render
import BuildFiles.Fault
import BuildFiles.Rule.Attributes
import BuildFiles.Rule.Target
import BuildFiles.Label
import BuildFiles.Namespace.Platform
import BuildFiles.Namespace.Declaration
import BuildFiles.Namespace.Source
import BuildFiles.Log
import BuildFiles.Rule.Inline
import BuildFiles.Manifest.Overrides
import BuildFiles.Settings
import BuildFiles.Maven.Properties
import BuildFiles.Maven.Coordinate
import BuildFiles.Basis
import BuildFiles.Library.Edges
import BuildFiles.Library.Install
import BuildFiles.Library.Claims
import BuildFiles.Loader.Text
import BuildFiles.Tree
import BuildFiles.Logged
import BuildFiles.Namespace.Files
import BuildFiles.Sources.Folders
import BuildFiles.Archive.Checksum
import BuildFiles.Archive.Bits
import BuildFiles.Archive.Code
import BuildFiles.Archive.Element
import BuildFiles.Archive.Inflate
import BuildFiles.Archive.Disturbance
import BuildFiles.Archive.SortedBlocks
import BuildFiles.Archive.RangeCoded
import BuildFiles.Archive.Layout
import BuildFiles.Archive.Contents
import BuildFiles.Index
import BuildFiles.Sources.Targets
import BuildFiles.Rule.BuildFile
import BuildFiles.Sources.Package
import BuildFiles.Library.Targets
import BuildFiles.Json.Token
import BuildFiles.Json.Document
import BuildFiles.Xml.Element
import BuildFiles.Xml.Name
import BuildFiles.Xml.Remark
import BuildFiles.Xml.Reference
import BuildFiles.Xml.Doctype.Basic
import BuildFiles.Xml.Doctype.Token
import BuildFiles.Xml.Doctype.Declarations
import BuildFiles.Xml.Markup
import BuildFiles.Xml.Document
import BuildFiles.Maven.Pom
import BuildFiles.Manifest.Basic
import BuildFiles.Manifest.Aliases
import BuildFiles.Resolution.Repository
import BuildFiles.Resolution.Selection
import BuildFiles.Resolution.BasisFile
import BuildFiles.Yaml.Damage
import BuildFiles.Yaml.Cursor
import BuildFiles.Yaml.Unquoted
import BuildFiles.Yaml.Quoted
import BuildFiles.Yaml.Indented
import BuildFiles.Yaml.Token
import BuildFiles.Yaml.Layout
import BuildFiles.Yaml.Kind
import BuildFiles.Yaml.Node
import BuildFiles.Yaml.Scalar
import BuildFiles.Yaml.Document
import BuildFiles.Configuration
import BuildFiles.Loader.Namespaces
import BuildFiles.Session
import BuildFiles.Pipeline
import BuildFiles.CommandLine.Options
import BuildFiles.CommandLine.Arguments
import BuildFiles.CommandLine.Execution
import BuildFiles.CommandLine.Reach
import BuildFiles.Main
import BuildFiles.Proofs.Computation
import BuildFiles.Proofs.Path
import BuildFiles.Proofs.Text
import BuildFiles.Proofs.Entries
import BuildFiles.Proofs.Tree
import BuildFiles.Proofs.Ways
import BuildFiles.Proofs.Update
import BuildFiles.Proofs.Label
import BuildFiles.Proofs.Resolution.Description
import BuildFiles.Proofs.Resolution.Decision
import BuildFiles.Proofs.Resolution.Exploration
import BuildFiles.Proofs.Resolution.Completion
import BuildFiles.Proofs.Resolution.Closure
import BuildFiles.Proofs.Resolution.Versions
import BuildFiles.Proofs.Resolution.Exclusions
import BuildFiles.Proofs.Resolution.Edges
import BuildFiles.Proofs.Resolution.Repetition
import BuildFiles.Proofs.Resolution.Ancestry
import BuildFiles.Proofs.Resolution.Cache
import BuildFiles.Proofs.Resolution.Loading
import BuildFiles.Proofs.Resolution.Workers
import BuildFiles.Proofs.Resolution.Concurrency
import BuildFiles.Proofs.Resolution.Inheritance
import BuildFiles.Proofs.Resolution.Expansion
import BuildFiles.Proofs.Resolution.Coordinates
import BuildFiles.Proofs.Resolution.Termination
import BuildFiles.Proofs.Resolution.ParentVersion
import BuildFiles.Proofs.Resolution.ExclusionNames
import BuildFiles.Proofs.Manifest.Aliases
import BuildFiles.Proofs.Manifest.SourcePaths
import BuildFiles.Proofs.Resolution.BasisFile
import BuildFiles.Proofs.Rule.Attributes
import BuildFiles.Proofs.Session
import BuildFiles.Proofs.Library.Index
import BuildFiles.Proofs.Library.Pairing
import BuildFiles.Proofs.Library.Labels
import BuildFiles.Proofs.Library.Imports
import BuildFiles.Proofs.Library.Names
import BuildFiles.Proofs.Library.Collisions
import BuildFiles.Proofs.Reader.Lexeme
import BuildFiles.Proofs.Reader.Stack
import BuildFiles.Proofs.Reader.Invariant
import BuildFiles.Proofs.Reader.Remainder
import BuildFiles.Proofs.Reader.Features
import BuildFiles.Proofs.Reader.Recognition
import BuildFiles.Proofs.Reader.Headway
import BuildFiles.Proofs.Reader.Concatenation
import BuildFiles.Proofs.Reader.Numeral
import BuildFiles.Proofs.Reader.Spelling
import BuildFiles.Proofs.Reader.Rendering
import BuildFiles.Proofs.Reader.Symbol
import BuildFiles.Proofs.Reader.Worthless
import BuildFiles.Proofs.Reader.Integer
import BuildFiles.Proofs.Reader.Conditional
import BuildFiles.Proofs.Reader.Splice
import BuildFiles.Proofs.Reader.Conversion
import BuildFiles.Proofs.Rule.Rendering
import BuildFiles.Proofs.Rule.Fitness
import BuildFiles.Proofs.Rule.Merging
import BuildFiles.Proofs.Overriding
import BuildFiles.Proofs.Namespace.Name
import BuildFiles.Proofs.Namespace.Specs
import BuildFiles.Proofs.Loader.Text
import BuildFiles.Proofs.Namespace.Heading
import BuildFiles.Proofs.Namespace.Opening
import BuildFiles.Proofs.Sources.Folders
import BuildFiles.Proofs.Sources.Listing
import BuildFiles.Proofs.Sources.Subtrees
import BuildFiles.Proofs.Sources.Aggregation
import BuildFiles.Proofs.Sources.Frame
import BuildFiles.Proofs.Namespace.Indexing
import BuildFiles.Proofs.Sources.Generation
import BuildFiles.Proofs.LineEndings
import BuildFiles.Proofs.Validation
import BuildFiles.Proofs.Sources.Labels
import BuildFiles.Proofs.Sources.SelfEdges
import BuildFiles.Proofs.Sources.Dependencies
import BuildFiles.Proofs.Sources.Repetition
import BuildFiles.Proofs.Sources.Order
import BuildFiles.Proofs.Sources.StripPrefix
import BuildFiles.Proofs.Loader.Requirements
import BuildFiles.Proofs.Determinacy
import BuildFiles.Proofs.Library.Order
import BuildFiles.Proofs.Pipeline
import BuildFiles.Proofs.Repetition

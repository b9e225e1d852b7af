import ApiScaffold.Calendar
import ApiScaffold.CommandLine.Command
import ApiScaffold.CommandLine.Grammar
import ApiScaffold.CommandLine.Help
import ApiScaffold.CommandLine.Reading
import ApiScaffold.CommandLine.Run
import ApiScaffold.Decimal.Binary64
import ApiScaffold.Decimal.Shortest
import ApiScaffold.Domain
import ApiScaffold.ErrorChain
import ApiScaffold.Failure
import ApiScaffold.FileTree.Access
import ApiScaffold.FileTree.Basic
import ApiScaffold.FileTree.Change
import ApiScaffold.Journal
import ApiScaffold.Main
import ApiScaffold.Migration
import ApiScaffold.Path
import ApiScaffold.Placeholder
import ApiScaffold.Program
import ApiScaffold.Project
import ApiScaffold.Registration.Anchor
import ApiScaffold.Registration.EntryLayout
import ApiScaffold.Registration.EntryTemplate
import ApiScaffold.Registration.ModuleList
import ApiScaffold.Registration.Referent
import ApiScaffold.Registration.Route
import ApiScaffold.Settings.Basic
import ApiScaffold.Settings.Load
import ApiScaffold.Settings.OfDocument
import ApiScaffold.Template.Basic
import ApiScaffold.Template.Domain
import ApiScaffold.Template.Project
import ApiScaffold.Text.Blank
import ApiScaffold.Text.CodePoint
import ApiScaffold.Text.Digit
import ApiScaffold.Text.LineBreak
import ApiScaffold.Text.LowerCase
import ApiScaffold.Text.Padding
import ApiScaffold.Text.Printable
import ApiScaffold.Text.Quoted
import ApiScaffold.Text.Search
import ApiScaffold.Text.Utf8
import ApiScaffold.Toolchain
import ApiScaffold.Workspace.Basic
import ApiScaffold.Workspace.Directories
import ApiScaffold.Workspace.Programs
import ApiScaffold.Yaml.Atom
import ApiScaffold.Yaml.Atom.Number
import ApiScaffold.Yaml.Atom.OfText
import ApiScaffold.Yaml.Character
import ApiScaffold.Yaml.Cursor
import ApiScaffold.Yaml.Document
import ApiScaffold.Yaml.Document.OfText
import ApiScaffold.Yaml.Fault
import ApiScaffold.Yaml.Moment
import ApiScaffold.Yaml.Node
import ApiScaffold.Yaml.Node.Merge
import ApiScaffold.Yaml.Node.OfTokens
import ApiScaffold.Yaml.Pieces
import ApiScaffold.Yaml.SetOrder
import ApiScaffold.Yaml.Tag
import ApiScaffold.Yaml.Token
import ApiScaffold.Yaml.Token.Property
import ApiScaffold.Yaml.Token.Scalar
import ApiScaffold.Yaml.Token.Stream
import ApiScaffold.Proofs.Text.Occurrence
import ApiScaffold.Proofs.Text.Segments
import ApiScaffold.Proofs.Text.Substitution
import ApiScaffold.Proofs.Registration.Entry
import ApiScaffold.Proofs.Registration.Place
import ApiScaffold.Proofs.FileTree.Walk
import ApiScaffold.Proofs.FileTree.Growth
import ApiScaffold.Proofs.Workspace.Outcome
import ApiScaffold.Proofs.Registration.RouteFile
import ApiScaffold.Proofs.Registration.Markers
import ApiScaffold.Proofs.Text.Insertion
import ApiScaffold.Proofs.Registration.Lines
import ApiScaffold.Proofs.Registration.Order
import ApiScaffold.Proofs.Workspace.Directories
import ApiScaffold.Proofs.Workspace.Failure
import ApiScaffold.Proofs.Workspace.Journal
import ApiScaffold.Proofs.Workspace.Programs
import ApiScaffold.Proofs.Template.Extract
import ApiScaffold.Proofs.Template.Tokens
import ApiScaffold.Proofs.FileTree.Listing
import ApiScaffold.Proofs.Placeholder
import ApiScaffold.Proofs.Registration.ModuleList
import ApiScaffold.Proofs.Registration.Declared
import ApiScaffold.Proofs.Settings.Load
import ApiScaffold.Proofs.Domain.Create
import ApiScaffold.Proofs.Domain.Territory
import ApiScaffold.Proofs.Template.Usual
import ApiScaffold.Proofs.Project.Create
import ApiScaffold.Proofs.Project.Stamp
import ApiScaffold.Proofs.Domain.Contents
import ApiScaffold.Proofs.Domain.Run
import ApiScaffold.Proofs.Domain.Recovery
import ApiScaffold.Proofs.Yaml.Quoted
import ApiScaffold.Proofs.Yaml.Pieces
import ApiScaffold.Proofs.Yaml.Stream
import ApiScaffold.Proofs.Yaml.Mapping
import ApiScaffold.Proofs.Yaml.Document
import ApiScaffold.Proofs.Settings.Spelled
import ApiScaffold.Proofs.Project.Settings
import ApiScaffold.Proofs.Registration.OwnLine
import ApiScaffold.Proofs.Text.LineEnds
import ApiScaffold.Proofs.Registration.LineEnds
import ApiScaffold.Proofs.Workspace.Execution
import ApiScaffold.Proofs.Toolchain.Policy
import ApiScaffold.Proofs.Settings.Faults
import ApiScaffold.Proofs.CommandLine.Reading
import ApiScaffold.Proofs.CommandLine.Failure
import ApiScaffold.Proofs.CommandLine.Run
import ApiScaffold.Proofs.Placeholder.Outcome
import ApiScaffold.Proofs.Placeholder.NoneLeft
import ApiScaffold.Proofs.Workspace.Confined
import ApiScaffold.Proofs.Template.Contained
import ApiScaffold.Proofs.Migration.Named
import ApiScaffold.Proofs.Calendar
import ApiScaffold.Proofs.Workspace.Lookup
import ApiScaffold.Proofs.Migration.Order
import ApiScaffold.Proofs.Migration.Batch
import ApiScaffold.Proofs.Errors
import ApiScaffold.Proofs.Yaml.Closed
import ApiScaffold.Proofs.Yaml.Telling
import ApiScaffold.Proofs.Settings.Keys
import ApiScaffold.Proofs.Settings.Shape
import ApiScaffold.Proofs.Settings.Defaults
import ApiScaffold.Proofs.Registration.Block
import ApiScaffold.Proofs.ErrorChain
import ApiScaffold.Proofs.Text.Quoted
import ApiScaffold.Proofs.Registration.EntryLayout
import ApiScaffold.Proofs.Registration.FieldValue
import ApiScaffold.Proofs.Registration.Filled
import ApiScaffold.Proofs.Registration.FieldBraces
import ApiScaffold.Proofs.Registration.Lead
import ApiScaffold.Proofs.Registration.Recognition

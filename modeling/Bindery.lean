import Bindery.Command.Arguments
import Bindery.Command.Drive
import Bindery.Command.HelpPage
import Bindery.Command.Job
import Bindery.Command.Prepare
import Bindery.Command.Sources
import Bindery.Config.Defaults
import Bindery.Config.Overlay
import Bindery.Corpus
import Bindery.Declaration.Basic
import Bindery.Declaration.Dump
import Bindery.Declaration.Record
import Bindery.Declaration.Site
import Bindery.Digest
import Bindery.Disk
import Bindery.Document.Block
import Bindery.Document.Bytes
import Bindery.Document.Composition
import Bindery.Document.Cursor
import Bindery.Document.Figure
import Bindery.Document.Lookahead
import Bindery.Document.Moment
import Bindery.Document.Node
import Bindery.Document.Plain
import Bindery.Document.Property
import Bindery.Document.Quoted
import Bindery.Document.Reading
import Bindery.Document.Schema
import Bindery.Document.Token
import Bindery.Documentation
import Bindery.Event.Attachment
import Bindery.Event.Rules
import Bindery.Fault
import Bindery.Inheritance
import Bindery.Inlines
import Bindery.Main
import Bindery.Module.Info
import Bindery.Module.Name
import Bindery.Module.ParserOptions
import Bindery.Normalization
import Bindery.Number.Binary64
import Bindery.Number.Decimal
import Bindery.Number.Shortest
import Bindery.Origin
import Bindery.Pass
import Bindery.Pipeline
import Bindery.Policy
import Bindery.Renaming
import Bindery.Report
import Bindery.Resolution
import Bindery.Run
import Bindery.Stage
import Bindery.Tally
import Bindery.Template
import Bindery.Template.Column
import Bindery.Template.Member
import Bindery.Template.Note
import Bindery.Template.Part
import Bindery.Template.PartClass
import Bindery.Text.Blank
import Bindery.Text.ByteName
import Bindery.Text.CaseMap
import Bindery.Text.Casing
import Bindery.Text.CodePoint
import Bindery.Text.CommandWords
import Bindery.Text.Cut
import Bindery.Text.Filling
import Bindery.Text.Hex
import Bindery.Text.Letter
import Bindery.Text.Numeral
import Bindery.Text.Pattern
import Bindery.Text.Printable
import Bindery.Text.Quoted
import Bindery.Text.Ranges
import Bindery.Text.Word
import Bindery.Tree
import Bindery.Tree.Edit
import Bindery.TypeSpelling
import Bindery.Value.Access
import Bindery.Value.Basic
import Bindery.Value.Canonical
import Bindery.Value.Display
import Bindery.Value.Key
import Bindery.Value.Message
import Bindery.Visibility
import Bindery.Work
import Bindery.WrittenPath
import Bindery.Proofs.Place
import Bindery.Proofs.Edit
import Bindery.Proofs.Change
import Bindery.Proofs.Loaded
import Bindery.Proofs.Permanence
import Bindery.Proofs.Settlement
import Bindery.Proofs.Lookup
import Bindery.Proofs.Directives
import Bindery.Proofs.Application
import Bindery.Proofs.Outcome
import Bindery.Proofs.Completion
import Bindery.Proofs.FinalTreatment
import Bindery.Proofs.Casing
import Bindery.Proofs.Obedience
import Bindery.Proofs.Preparation
import Bindery.Proofs.Stability
import Bindery.Proofs.Finish
import Bindery.Proofs.Rerun
import Bindery.Proofs.Failure
import Bindery.Proofs.Growth
import Bindery.Proofs.Loading
import Bindery.Proofs.Naming
import Bindery.Proofs.Order
import Bindery.Proofs.Sources
import Bindery.Proofs.Synthesis
import Bindery.Proofs.Filing
import Bindery.Proofs.Filling
import Bindery.Proofs.Storage
import Bindery.Proofs.Delivery
import Bindery.Proofs.Frame
import Bindery.Proofs.Repetition
import Bindery.Proofs.Written
import Bindery.Proofs.RoundTrip
import Bindery.Proofs.Clearing
import Bindery.Proofs.Timing
import Bindery.Proofs.Figures
import Bindery.Proofs.Accounting
import Bindery.Proofs.Rearrangement
import Bindery.Proofs.Heirs
import Bindery.Proofs.Comparison
import Bindery.Proofs.Lockstep
import Bindery.Proofs.Uniqueness
import Bindery.Proofs.UnitOrder
import Bindery.Proofs.Fulfilment
import Bindery.Proofs.Removal
import Bindery.Proofs.Spelling
import Bindery.Proofs.Hooks
import Bindery.Proofs.Ending
import Bindery.Proofs.HookNames
import Bindery.Proofs.Ancestry
import Bindery.Proofs.Propagation
import Bindery.Proofs.Respelling
import Bindery.Proofs.Retrieval
import Bindery.Proofs.Documented
import Bindery.Proofs.Pruning
import Bindery.Proofs.Directories
import Bindery.Proofs.Linking
import Bindery.Proofs.Progress
import Bindery.Proofs.Records
import Bindery.Proofs.Correspondence
import Bindery.Proofs.LibraryNames
import Bindery.Proofs.Collation
import Bindery.Proofs.Reordering
import Bindery.Proofs.Overlaying
import Bindery.Proofs.Restating
import Bindery.Proofs.Rounding
import Bindery.Proofs.NumberText
import Bindery.Proofs.Tokens
import Bindery.Proofs.Fingerprint
import Bindery.Proofs.Reduction

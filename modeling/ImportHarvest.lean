import ImportHarvest.Aggregate
import ImportHarvest.CommandLine.Arguments
import ImportHarvest.CommandLine.Help
import ImportHarvest.CommandLine.Report
import ImportHarvest.CommandLine.Run
import ImportHarvest.Disk.Basic
import ImportHarvest.Disk.Changes
import ImportHarvest.Disk.Path
import ImportHarvest.Entry
import ImportHarvest.Failure
import ImportHarvest.Fields
import ImportHarvest.Filter
import ImportHarvest.Glob.Basic
import ImportHarvest.Glob.Parser
import ImportHarvest.Http
import ImportHarvest.Imports
import ImportHarvest.Json.Basic
import ImportHarvest.Json.Parser
import ImportHarvest.LocalTree
import ImportHarvest.Main
import ImportHarvest.NameSet
import ImportHarvest.Notebook
import ImportHarvest.Pipeline
import ImportHarvest.Record
import ImportHarvest.RemoteTree
import ImportHarvest.RemoteTree.Expansion
import ImportHarvest.RemoteTree.Turns
import ImportHarvest.LocalTree.Visits
import ImportHarvest.Repository
import ImportHarvest.Selection
import ImportHarvest.Settings.Config
import ImportHarvest.Settings.Environment
import ImportHarvest.Settings.Items
import ImportHarvest.Settings.Layers
import ImportHarvest.Settings.Overrides
import ImportHarvest.Settings.Value
import ImportHarvest.Sink
import ImportHarvest.Source
import ImportHarvest.Text.Blank
import ImportHarvest.Text.Decimal
import ImportHarvest.Text.Decode
import ImportHarvest.Text.Escape
import ImportHarvest.Text.Grouped
import ImportHarvest.Text.Pieces
import ImportHarvest.Text.Quoted
import ImportHarvest.Text.Utf16
import ImportHarvest.Text.Utf8
import ImportHarvest.Text.Word
import ImportHarvest.Toml.Document
import ImportHarvest.Toml.Scalar
import ImportHarvest.Toml.Table
import ImportHarvest.Url
import ImportHarvest.Yaml.Cursor
import ImportHarvest.Yaml.Document
import ImportHarvest.Yaml.Folded
import ImportHarvest.Yaml.Layout
import ImportHarvest.Yaml.Node
import ImportHarvest.Yaml.Token
import ImportHarvest.Proofs.Answers
import ImportHarvest.Proofs.Disk
import ImportHarvest.Proofs.Output
import ImportHarvest.Proofs.Run
import ImportHarvest.Proofs.Artifact
import ImportHarvest.Proofs.Pipeline
import ImportHarvest.Proofs.Failures
import ImportHarvest.Proofs.Insertions
import ImportHarvest.Proofs.Imports
import ImportHarvest.Proofs.Utf8
import ImportHarvest.Proofs.Modules
import ImportHarvest.Proofs.RemoteWalk
import ImportHarvest.Proofs.Counts
import ImportHarvest.Proofs.Rerun
import ImportHarvest.Proofs.Paths
import ImportHarvest.Proofs.Members
import ImportHarvest.Proofs.Mirror
import ImportHarvest.Proofs.Growth
import ImportHarvest.Proofs.OwnArtifact
import ImportHarvest.Proofs.Limits
import ImportHarvest.Proofs.Order
import ImportHarvest.Proofs.Headers
import ImportHarvest.Proofs.Requests
import ImportHarvest.Proofs.Rejections
import ImportHarvest.Proofs.Fields
import ImportHarvest.Proofs.Layers
import ImportHarvest.Proofs.BlankToken
import ImportHarvest.Proofs.Precedence
import ImportHarvest.Proofs.OtherNames
import ImportHarvest.Proofs.ListItems
import ImportHarvest.Proofs.ListSettings
import ImportHarvest.Proofs.Granted
import ImportHarvest.Proofs.NormalForm
import ImportHarvest.Proofs.Statuses
import ImportHarvest.Proofs.VariableGrammar
import ImportHarvest.Proofs.VariableTexts
import ImportHarvest.Proofs.Encodings
import ImportHarvest.Proofs.ImportLines
import ImportHarvest.Proofs.PlainCommand
import ImportHarvest.Proofs.Authorization
import ImportHarvest.Proofs.Dropping
import ImportHarvest.Proofs.NotebookShape
import ImportHarvest.Proofs.NotebookDocuments
import ImportHarvest.Proofs.Addresses
import ImportHarvest.Proofs.WrittenAddresses
import ImportHarvest.Proofs.RepositoryNames
import ImportHarvest.Proofs.ForeignAddresses
import ImportHarvest.Proofs.Scripts
import ImportHarvest.Proofs.JsonText
import ImportHarvest.Proofs.JsonValues
import ImportHarvest.Proofs.Representations
import ImportHarvest.Proofs.JoinedNames
import ImportHarvest.Proofs.ListingAddresses
import ImportHarvest.Proofs.ReachedEntries
import ImportHarvest.Proofs.RelativePaths
import ImportHarvest.Proofs.Laziness
import ImportHarvest.Proofs.Visits
import ImportHarvest.Proofs.DiskRecords
import ImportHarvest.Proofs.GroupedNumbers

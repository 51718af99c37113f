import Warehouse.Block
import Warehouse.Bytes
import Warehouse.CommandLine.Arguments
import Warehouse.CommandLine.Command
import Warehouse.CommandLine.Help
import Warehouse.CommandLine.Program
import Warehouse.CommandLine.Report
import Warehouse.Config
import Warehouse.Cost.Amount
import Warehouse.Cost.Model
import Warehouse.Cost.Param
import Warehouse.Cost.Skew
import Warehouse.Decimal.Dyadic
import Warehouse.Decimal.Text
import Warehouse.Error
import Warehouse.Hex
import Warehouse.Hint.Basic
import Warehouse.Hint.Document
import Warehouse.Json.Decode
import Warehouse.Json.Number
import Warehouse.Json.Parser
import Warehouse.Json.Printer
import Warehouse.Json.Transform
import Warehouse.Json.Value
import Warehouse.Log.Body
import Warehouse.Log.Crc32
import Warehouse.Log.Document
import Warehouse.Log.Frame
import Warehouse.Log.Record
import Warehouse.Log.Varint
import Warehouse.Log.Writer
import Warehouse.Main
import Warehouse.Page.Basic
import Warehouse.Page.Items
import Warehouse.Plan.Arena
import Warehouse.Plan.Distribution
import Warehouse.Plan.Document
import Warehouse.Plan.Operator
import Warehouse.Plan.OperatorDocument
import Warehouse.Plan.Statistics
import Warehouse.Plan.Table
import Warehouse.Plan.Tree
import Warehouse.Plan.TreeDocument
import Warehouse.Proofs.Cost.Amounts
import Warehouse.Proofs.Cost.Assertions
import Warehouse.Proofs.Cost.Nodes
import Warehouse.Proofs.Cost.Recomputation
import Warehouse.Proofs.Encoding
import Warehouse.Proofs.Log.Bodies
import Warehouse.Proofs.Log.Checksums
import Warehouse.Proofs.Log.Cuts
import Warehouse.Proofs.Log.Damage
import Warehouse.Proofs.Log.Frames
import Warehouse.Proofs.Log.Limits
import Warehouse.Proofs.Log.Reopening
import Warehouse.Proofs.Outcomes
import Warehouse.Proofs.Page.Access
import Warehouse.Proofs.Page.Edits
import Warehouse.Proofs.Page.Items
import Warehouse.Proofs.Page.Updates
import Warehouse.Proofs.Plan.Arenas
import Warehouse.Proofs.Plan.ColumnMaps
import Warehouse.Proofs.Plan.Extraction
import Warehouse.Proofs.Plan.Subtrees
import Warehouse.Proofs.RangeIndex.Attempts
import Warehouse.Proofs.RangeIndex.Bindings
import Warehouse.Proofs.RangeIndex.Caches
import Warehouse.Proofs.RangeIndex.Cancellations
import Warehouse.Proofs.RangeIndex.Care
import Warehouse.Proofs.RangeIndex.Changes
import Warehouse.Proofs.RangeIndex.Commits
import Warehouse.Proofs.RangeIndex.Contracts
import Warehouse.Proofs.RangeIndex.Coverage
import Warehouse.Proofs.RangeIndex.CrashRecovery
import Warehouse.Proofs.RangeIndex.Creation
import Warehouse.Proofs.RangeIndex.CutExtensions
import Warehouse.Proofs.RangeIndex.DamagedEntries
import Warehouse.Proofs.RangeIndex.DamagedPages
import Warehouse.Proofs.RangeIndex.Demands
import Warehouse.Proofs.RangeIndex.Effects
import Warehouse.Proofs.RangeIndex.Extension
import Warehouse.Proofs.RangeIndex.FailedWrites
import Warehouse.Proofs.RangeIndex.Flags
import Warehouse.Proofs.RangeIndex.FullPages
import Warehouse.Proofs.RangeIndex.Geometry
import Warehouse.Proofs.RangeIndex.Histories
import Warehouse.Proofs.RangeIndex.InterleavedLogs
import Warehouse.Proofs.RangeIndex.Interleavings
import Warehouse.Proofs.RangeIndex.Layouts
import Warehouse.Proofs.RangeIndex.Lookup
import Warehouse.Proofs.RangeIndex.MetaContents
import Warehouse.Proofs.RangeIndex.Operations
import Warehouse.Proofs.RangeIndex.Outlooks
import Warehouse.Proofs.RangeIndex.Pages
import Warehouse.Proofs.RangeIndex.Placement
import Warehouse.Proofs.RangeIndex.Positions
import Warehouse.Proofs.RangeIndex.Ranges
import Warehouse.Proofs.RangeIndex.Refinement
import Warehouse.Proofs.RangeIndex.Replays
import Warehouse.Proofs.RangeIndex.Restarts
import Warehouse.Proofs.RangeIndex.Results
import Warehouse.Proofs.RangeIndex.Retelling
import Warehouse.Proofs.RangeIndex.Rewrites
import Warehouse.Proofs.RangeIndex.Room
import Warehouse.Proofs.RangeIndex.Runs
import Warehouse.Proofs.RangeIndex.Searches
import Warehouse.Proofs.RangeIndex.Services
import Warehouse.Proofs.RangeIndex.Slots
import Warehouse.Proofs.RangeIndex.Staleness
import Warehouse.Proofs.RangeIndex.Traffic
import Warehouse.Proofs.RangeIndex.Turns
import Warehouse.Proofs.RangeIndex.Walks
import Warehouse.Proofs.Search.Alternatives
import Warehouse.Proofs.Search.Closure
import Warehouse.Proofs.Search.Completion
import Warehouse.Proofs.Search.Copies
import Warehouse.Proofs.Search.Deliveries
import Warehouse.Proofs.Search.Drafts
import Warehouse.Proofs.Search.Explorations
import Warehouse.Proofs.Search.Groups
import Warehouse.Proofs.Search.Implementations
import Warehouse.Proofs.Search.IndexConditions
import Warehouse.Proofs.Search.Memos
import Warehouse.Proofs.Search.Optima
import Warehouse.Proofs.Search.Placements
import Warehouse.Proofs.Search.Prices
import Warehouse.Proofs.Search.Proposals
import Warehouse.Proofs.Search.Refusals
import Warehouse.Proofs.Search.Remembering
import Warehouse.Proofs.Search.Spaces
import Warehouse.Proofs.Search.Violations
import Warehouse.Query.Basic
import Warehouse.Query.Catalog
import Warehouse.Query.Document
import Warehouse.RangeIndex.Accessor
import Warehouse.RangeIndex.Addressing
import Warehouse.RangeIndex.Chains
import Warehouse.RangeIndex.Coverage
import Warehouse.RangeIndex.Layout
import Warehouse.RangeIndex.Metapage
import Warehouse.RangeIndex.Operations
import Warehouse.RangeIndex.Placement
import Warehouse.RangeIndex.Procedure
import Warehouse.RangeIndex.RangeMap
import Warehouse.RangeIndex.Recovery
import Warehouse.RangeIndex.Session
import Warehouse.RangeIndex.Summary
import Warehouse.Relation
import Warehouse.Search.Alternative
import Warehouse.Search.Document
import Warehouse.Search.Exploration
import Warehouse.Search.Memo
import Warehouse.Search.Optimizer
import Warehouse.Search.Rules
import Warehouse.Text.Blank

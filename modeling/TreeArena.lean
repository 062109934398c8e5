import TreeArena.NodeId
import TreeArena.Fault
import TreeArena.Cause
import TreeArena.Level
import TreeArena.Arena.Node
import TreeArena.Arena.Layout
import TreeArena.Arena.Image
import TreeArena.Slots
import TreeArena.Pool.Basic
import TreeArena.Pool.Ownership
import TreeArena.Pool.Audit
import TreeArena.Pool.Copy
import TreeArena.Encoding.Varint
import TreeArena.Encoding.TreeCode
import TreeArena.Handle
import TreeArena.Edit
import TreeArena.Expr.Basic
import TreeArena.Expr.Text
import TreeArena.Expr.Flatten
import TreeArena.Text.Utf8
import TreeArena.Text.Printable
import TreeArena.Text.Case
import TreeArena.Text.HexDump
import TreeArena.Text.Numeral
import TreeArena.Text.Quoted
import TreeArena.Hash.Xxh64
import TreeArena.Records.Store
import TreeArena.Records.Models
import TreeArena.Session.Basic
import TreeArena.Session.Steps
import TreeArena.Session.Run
import TreeArena.Settings.Token
import TreeArena.Settings.Feed
import TreeArena.Settings.Scanner
import TreeArena.Settings.Document
import TreeArena.Settings.Scalar
import TreeArena.Settings.Config
import TreeArena.Settings.Decode
import TreeArena.Command.Args
import TreeArena.Command.Help
import TreeArena.Command.Scripts
import TreeArena.Command.Complete
import TreeArena.Command.Files
import TreeArena.Command.Metrics
import TreeArena.Command.Run
import TreeArena.Main
import TreeArena.Proofs.Forest
import TreeArena.Proofs.Zipper
import TreeArena.Proofs.Walk
import TreeArena.Proofs.Table
import TreeArena.Proofs.Moves
import TreeArena.Proofs.Placement
import TreeArena.Proofs.Units
import TreeArena.Proofs.Records
import TreeArena.Proofs.Release
import TreeArena.Proofs.Degrade
import TreeArena.Proofs.Attach
import TreeArena.Proofs.Edits
import TreeArena.Proofs.Alloc
import TreeArena.Proofs.Codec
import TreeArena.Proofs.Copies
import TreeArena.Proofs.Proper
import TreeArena.Proofs.Kept
import TreeArena.Proofs.Heap
import TreeArena.Proofs.Guarded
import TreeArena.Proofs.Queries
import TreeArena.Proofs.HandleOps
import TreeArena.Proofs.EditOps
import TreeArena.Proofs.Operands
import TreeArena.Proofs.RecordMap
import TreeArena.Proofs.Refusal
import TreeArena.Proofs.WorkRuns
import TreeArena.Proofs.Windows
import TreeArena.Proofs.ModelCalls
import TreeArena.Proofs.ModelRuns
import TreeArena.Proofs.ModelFresh
import TreeArena.Proofs.HeapRuns
import TreeArena.Proofs.Reachable
import TreeArena.Proofs.Transfer
import TreeArena.Proofs.FailureEdits
import TreeArena.Proofs.EncodingGrammar
import TreeArena.Proofs.Links
import TreeArena.Proofs.Entries
import TreeArena.Proofs.EditEntries
import TreeArena.Proofs.OperandSteps
import TreeArena.Proofs.Constructors
import TreeArena.Proofs.Clones
import TreeArena.Proofs.FlatTrees
import TreeArena.Proofs.FoldSteps
import TreeArena.Proofs.Flattening
import TreeArena.Proofs.Building
import TreeArena.Proofs.Navigation
import TreeArena.Proofs.Checksum
import TreeArena.Proofs.Audit
import TreeArena.Proofs.Exhaust
import TreeArena.Proofs.Staleness
import TreeArena.Proofs.SlotOps
import TreeArena.Proofs.Relocation
import TreeArena.Proofs.EditRefinement

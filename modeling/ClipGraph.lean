import ClipGraph.FileTree
import ClipGraph.Main
import ClipGraph.Proofs.Ports
import ClipGraph.Proofs.Packing
import ClipGraph.Proofs.Valid
import ClipGraph.Proofs.Drafting
import ClipGraph.Proofs.Verdicts
import ClipGraph.Proofs.Cycles
import ClipGraph.Proofs.EmissionOrder
import ClipGraph.Proofs.Unchecked
import ClipGraph.Proofs.LeastOrder
import ClipGraph.Proofs.Feeding
import ClipGraph.Proofs.AnyOrder
import ClipGraph.Proofs.Listing
import ClipGraph.Proofs.Outcome
import ClipGraph.Proofs.Grammar
import ClipGraph.Proofs.Meaning
import ClipGraph.Proofs.Reading
import ClipGraph.Proofs.Parts
import ClipGraph.Proofs.Projects
import ClipGraph.Proofs.SameShown
import ClipGraph.Proofs.Rewiring
import ClipGraph.Proofs.Decimals
import ClipGraph.Proofs.LiteralValues
import ClipGraph.Proofs.Scaling
import ClipGraph.Proofs.JsonTokens
import ClipGraph.Proofs.JsonTrees
import ClipGraph.Proofs.JsonReaders
import ClipGraph.Proofs.Storing
import ClipGraph.Proofs.Loading
import ClipGraph.Proofs.JsonWords
import ClipGraph.Proofs.JsonEdits
import ClipGraph.Proofs.JsonRecords
import ClipGraph.Proofs.NodeLayouts
import ClipGraph.Proofs.Arrangements
import ClipGraph.Proofs.Rereading
import ClipGraph.Proofs.Reopening
import ClipGraph.Proofs.Sameness
import ClipGraph.Proofs.Runs
import ClipGraph.Proofs.Beside
import ClipGraph.Proofs.Entries
import ClipGraph.Proofs.Statistics
import ClipGraph.Proofs.Bystanders
import ClipGraph.Proofs.Commands
import ClipGraph.Proofs.Table
import ClipGraph.Proofs.ScriptPaths
import ClipGraph.Proofs.Saves
import ClipGraph.Proofs.TomlQuotes
import ClipGraph.Proofs.SettingsText
import ClipGraph.Guarded.Cycle
import ClipGraph.Guarded.Order
import ClipGraph.Guarded.Script
import ClipGraph.Proofs.GuardedCycle
import ClipGraph.Proofs.GuardedOrder
import ClipGraph.Proofs.GuardedScript
import ClipGraph.Proofs.GuardedStages

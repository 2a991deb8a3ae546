import CallFlow.Association
import CallFlow.Block
import CallFlow.Block.Config
import CallFlow.Block.Kind
import CallFlow.CommandLine
import CallFlow.CommandLine.Arguments
import CallFlow.Compilation
import CallFlow.Dialplan
import CallFlow.Document
import CallFlow.FileName
import CallFlow.FileTree
import CallFlow.Fitting
import CallFlow.Flow
import CallFlow.Flow.Edit
import CallFlow.FlowFile
import CallFlow.Json.Reader
import CallFlow.Json.Writer
import CallFlow.Keypad
import CallFlow.Main
import CallFlow.Number.Binary64
import CallFlow.Number.Decimal
import CallFlow.Number.Shortest
import CallFlow.Outline
import CallFlow.Path
import CallFlow.Proofs.Association
import CallFlow.Proofs.Change
import CallFlow.Proofs.Compilable
import CallFlow.Proofs.Compilation
import CallFlow.Proofs.DepthFirst
import CallFlow.Proofs.EdgeIds
import CallFlow.Proofs.Except
import CallFlow.Proofs.Lookup
import CallFlow.Proofs.NormalForm
import CallFlow.Proofs.Numerals
import CallFlow.Proofs.Reached
import CallFlow.Proofs.RoundTrip
import CallFlow.Proofs.Walk
import CallFlow.Script
import CallFlow.Script.Reader
import CallFlow.Settings
import CallFlow.Settings.EnvFile
import CallFlow.Simulation
import CallFlow.Store
import CallFlow.Store.Call
import CallFlow.Template
import CallFlow.Text.Blank
import CallFlow.Text.Digits
import CallFlow.Text.Markup
import CallFlow.Text.Order
import CallFlow.Text.Printable
import CallFlow.Text.Quoted
import CallFlow.Text.Split
import CallFlow.Traversal
import CallFlow.Validation
import CallFlow.Validation.Finding
import CallFlow.Value
import CallFlow.Value.Display
import CallFlow.Value.Nested
import CallFlow.Value.Pairs
import CallFlow.Yaml.Cursor
import CallFlow.Yaml.Node
import CallFlow.Yaml.Plain
import CallFlow.Yaml.Quoted
import CallFlow.Yaml.Reader
import CallFlow.Yaml.Token
import CallFlow.Yaml.Writer
import CallFlow.Proofs.KeypadOrder
import CallFlow.Proofs.UnitOrder
import CallFlow.Proofs.ClosedScript
import CallFlow.Proofs.Integrity
import CallFlow.Proofs.SingleBranches
import CallFlow.Proofs.FailedEdits
import CallFlow.Proofs.Rounding
import CallFlow.Proofs.NumberText
import CallFlow.Proofs.NestedValues
import CallFlow.Proofs.EscapedText
import CallFlow.Proofs.JsonRoundTrip
import CallFlow.Proofs.DocumentText
import CallFlow.Proofs.StoreFiles
import CallFlow.Proofs.StoreHistory
import CallFlow.Proofs.StoreMap
import CallFlow.Proofs.Rewiring
import CallFlow.Proofs.ScriptText
import CallFlow.Proofs.CallPaths
import CallFlow.Proofs.CallLength
import CallFlow.Proofs.OutlineContents
import CallFlow.Proofs.DialplanText
import CallFlow.Proofs.Blocks
import CallFlow.Proofs.ControlFlow
import CallFlow.Proofs.Attempts
import CallFlow.Proofs.AcceptedDocuments
import CallFlow.Proofs.CycleFindings
import CallFlow.Proofs.Warnings
import CallFlow.Proofs.CompileFaults
import CallFlow.Proofs.ReaderParts
import CallFlow.Proofs.ReaderFaults
import CallFlow.Proofs.LongNumbers
import CallFlow.Proofs.DialplanLines
import CallFlow.Proofs.CallInputs
import CallFlow.Proofs.ConfigUpdates
import CallFlow.Proofs.ChangeCounts
import CallFlow.Proofs.Positions
import CallFlow.Proofs.ConfigForms
import CallFlow.Proofs.UnknownBlocks
import CallFlow.Proofs.LoadedEdges
import CallFlow.Proofs.DerivedIds
import CallFlow.Proofs.Connecting
import CallFlow.Proofs.CanvasEntries
import CallFlow.Proofs.Deletions
import CallFlow.Proofs.Repeats
import CallFlow.Proofs.OutlineFaults
import CallFlow.Proofs.ArrowOrder
import CallFlow.Proofs.HandleOrder
import CallFlow.Proofs.StepArguments

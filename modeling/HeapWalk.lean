import HeapWalk.Bindings
import HeapWalk.Command.Basic
import HeapWalk.Command.Directive
import HeapWalk.Command.Filter
import HeapWalk.Command.Options
import HeapWalk.Fault
import HeapWalk.Heap.Basic
import HeapWalk.Heap.Pointer
import HeapWalk.History
import HeapWalk.Inspector.Basic
import HeapWalk.Inspector.Panes
import HeapWalk.Inspector.Terminal
import HeapWalk.Journal.Basic
import HeapWalk.Journal.Filter
import HeapWalk.Machine.Basic
import HeapWalk.Machine.Eval
import HeapWalk.Machine.Run
import HeapWalk.Machine.Storage
import HeapWalk.Main
import HeapWalk.Number.Basic
import HeapWalk.Number.Literal
import HeapWalk.Number.Shortest
import HeapWalk.Pattern.Atom
import HeapWalk.Pattern.Basic
import HeapWalk.Pattern.Class
import HeapWalk.Pattern.Mode
import HeapWalk.Program.Basic
import HeapWalk.Program.Lowering
import HeapWalk.Program.Operator
import HeapWalk.Proofs.Arguments
import HeapWalk.Proofs.Blame
import HeapWalk.Proofs.CallDepth
import HeapWalk.Proofs.Codec
import HeapWalk.Proofs.Contents
import HeapWalk.Proofs.Discipline
import HeapWalk.Proofs.Evaluation
import HeapWalk.Proofs.Exactness
import HeapWalk.Proofs.FaultLine
import HeapWalk.Proofs.FirstFit
import HeapWalk.Proofs.Footprint
import HeapWalk.Proofs.Fuel
import HeapWalk.Proofs.Grammar
import HeapWalk.Proofs.Growth
import HeapWalk.Proofs.Handles
import HeapWalk.Proofs.HeapBlocks
import HeapWalk.Proofs.HeapLayout
import HeapWalk.Proofs.HeapMap
import HeapWalk.Proofs.HeapRequests
import HeapWalk.Proofs.Invariance
import HeapWalk.Proofs.JsonLibrary
import HeapWalk.Proofs.JsonText
import HeapWalk.Proofs.Ledger
import HeapWalk.Proofs.Names
import HeapWalk.Proofs.Operands
import HeapWalk.Proofs.Reading
import HeapWalk.Proofs.Reclamation
import HeapWalk.Proofs.Reference
import HeapWalk.Proofs.Refinement
import HeapWalk.Proofs.Refusals
import HeapWalk.Proofs.Relation
import HeapWalk.Proofs.Replay
import HeapWalk.Proofs.Results
import HeapWalk.Proofs.Rounds
import HeapWalk.Proofs.Scopes
import HeapWalk.Proofs.Scoping
import HeapWalk.Proofs.Session
import HeapWalk.Proofs.Signals
import HeapWalk.Proofs.Simulation
import HeapWalk.Proofs.Spec
import HeapWalk.Proofs.Steps
import HeapWalk.Proofs.Storage
import HeapWalk.Proofs.Store
import HeapWalk.Proofs.Targets
import HeapWalk.Proofs.Termination
import HeapWalk.Proofs.Tidiness
import HeapWalk.Proofs.Timeline
import HeapWalk.Proofs.Tokens
import HeapWalk.Proofs.Transparency
import HeapWalk.Proofs.TypeFaults
import HeapWalk.Report
import HeapWalk.Scope.Basic
import HeapWalk.Screen.Basic
import HeapWalk.Screen.Pane
import HeapWalk.Screen.Theme
import HeapWalk.Text.Alphabetic
import HeapWalk.Text.Alphanumeric
import HeapWalk.Text.Numeric
import HeapWalk.Text.Quoted
import HeapWalk.Text.Ranges
import HeapWalk.Text.Unseen
import HeapWalk.Text.Unsigned
import HeapWalk.Tree.Node
import HeapWalk.Tree.Reader
import HeapWalk.Tree.Text
import HeapWalk.Value.Basic
import HeapWalk.Value.Bytes

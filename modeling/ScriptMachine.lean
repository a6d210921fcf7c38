import ScriptMachine.Json.Printer
import ScriptMachine.Number.Literal
import ScriptMachine.Failure
import ScriptMachine.Program.Validation
import ScriptMachine.Program.Listing
import ScriptMachine.Program.Format
import ScriptMachine.Heap.Property
import ScriptMachine.Heap.Collection
import ScriptMachine.InlineCache
import ScriptMachine.Config
import ScriptMachine.Tier.Lowering
import ScriptMachine.Machine.Frame
import ScriptMachine.Machine.State
import ScriptMachine.Machine.Raise
import ScriptMachine.Machine.Property
import ScriptMachine.Machine.Scope
import ScriptMachine.Machine.Operators
import ScriptMachine.Machine.Bootstrap
import ScriptMachine.Machine.Perform
import ScriptMachine.Machine.Summary
import ScriptMachine.Session
import ScriptMachine.Engine
import ScriptMachine.CommandLine.Options
import ScriptMachine.CommandLine.Run
import ScriptMachine.CommandLine.Folder
import ScriptMachine.Main
import ScriptMachine.Host.Library
import ScriptMachine.Proofs.Heap.Collection
import ScriptMachine.Proofs.Machine.Transparency
import ScriptMachine.Proofs.Program.Validation
import ScriptMachine.Proofs.Safety.Dangling
import ScriptMachine.Proofs.Stack.Delivery
import ScriptMachine.Proofs.Progress.Variables
import ScriptMachine.Proofs.Shape.History
import ScriptMachine.Proofs.Heap.Isolation
import ScriptMachine.Proofs.Heap.Interning
import ScriptMachine.Proofs.Heap.Location
import ScriptMachine.Proofs.Failure.Unseen
import ScriptMachine.Proofs.Heap.Issue
import ScriptMachine.Proofs.Shape.Layout
import ScriptMachine.Proofs.Heap.Balance
import ScriptMachine.Proofs.Heap.Prototypes
import ScriptMachine.Proofs.Heap.Roots
import ScriptMachine.Proofs.Heap.Representation
import ScriptMachine.Proofs.Heap.Faults
import ScriptMachine.Proofs.Heap.Writing
import ScriptMachine.Proofs.Program.Format
import ScriptMachine.Proofs.Events.Brackets
import ScriptMachine.Proofs.Scope.Resolution
import ScriptMachine.Proofs.Heap.Definition
import ScriptMachine.Proofs.Tier.Mirror
import ScriptMachine.Proofs.Tandem.Outcome
import ScriptMachine.Proofs.Machine.Memory
import ScriptMachine.Proofs.Machine.Keys
import ScriptMachine.Proofs.Program.Building
import ScriptMachine.Proofs.Program.Registration
import ScriptMachine.Proofs.InlineCache.Record
import ScriptMachine.Proofs.Machine.Comparison
import ScriptMachine.Proofs.Number.Exact
import ScriptMachine.Proofs.Number.Grammar
import ScriptMachine.Proofs.Stub.Transport
import ScriptMachine.Proofs.Atom.Calls

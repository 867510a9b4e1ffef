import StackMachine.Change
import StackMachine.Sums
import StackMachine.Number
import StackMachine.Fault
import StackMachine.Value
import StackMachine.Text.Unprintable
import StackMachine.Text.Column
import StackMachine.Text.Quoted
import StackMachine.Descriptor.Basic
import StackMachine.Descriptor.Parser
import StackMachine.Instruction
import StackMachine.Bytes.Word
import StackMachine.Bytes.Cursor
import StackMachine.Constant
import StackMachine.Log
import StackMachine.Program.Basic
import StackMachine.Program.Verify
import StackMachine.Program.LoadError
import StackMachine.Program.File
import StackMachine.Program.Link
import StackMachine.Bytes.Varint
import StackMachine.Program.Image
import StackMachine.Text.Blank
import StackMachine.Text.Percent
import StackMachine.Program.Listing
import StackMachine.Frame
import StackMachine.Heap.Basic
import StackMachine.Heap.Collection
import StackMachine.Heap.Allocation
import StackMachine.Native.Lane
import StackMachine.Native.Step
import StackMachine.Native.Block
import StackMachine.Native.Optimize
import StackMachine.Native.Kind
import StackMachine.Native.Execute
import StackMachine.Native.Compiler
import StackMachine.Machine.State
import StackMachine.Machine.Step
import StackMachine.Machine.Run
import StackMachine.Machine.Loading
import StackMachine.CommandLine.Options
import StackMachine.CommandLine.Path
import StackMachine.CommandLine.Directory
import StackMachine.CommandLine.Execute
import StackMachine.Main
import StackMachine.Proofs.Runs
import StackMachine.Proofs.StackHeights
import StackMachine.Proofs.VerifiedRuns
import StackMachine.Proofs.Native.FoldedConstants
import StackMachine.Proofs.Native.Invocation
import StackMachine.Proofs.NativeTransparency
import StackMachine.Proofs.Heap.ExactCollection
import StackMachine.Proofs.AlikeRuns
import StackMachine.Proofs.CollectionTransparency
import StackMachine.Proofs.LoadHistories
import StackMachine.Proofs.LiveReferences
import StackMachine.Proofs.Native.Compilability
import StackMachine.Proofs.Heap.Operations
import StackMachine.Proofs.Native.SafeCalls
import StackMachine.Proofs.Heap.Bookkeeping
import StackMachine.Proofs.FileFormat
import StackMachine.Proofs.Registration
import StackMachine.Proofs.LoadedMachines
import StackMachine.Proofs.ImageRoundTrip
import StackMachine.Proofs.Relocation
import StackMachine.Proofs.LinkedRuns
import StackMachine.Proofs.CallStacks
import StackMachine.Proofs.CallDiscipline
import StackMachine.Proofs.Backtraces
import StackMachine.Proofs.HeapLimit
import StackMachine.Proofs.Faults
import StackMachine.Proofs.DecodableConstants
import StackMachine.Proofs.Verdicts
import StackMachine.Proofs.Heap.Exhaustion
import StackMachine.Proofs.Native.DirectStores
import StackMachine.Proofs.Native.Dialogue
import StackMachine.Proofs.Native.Discipline
import StackMachine.Proofs.NativeBookkeeping
import StackMachine.Proofs.Native.DeadCode
import StackMachine.Proofs.Truncation
import StackMachine.Proofs.Registry
import StackMachine.Proofs.FileReferences
import StackMachine.Proofs.Descriptor.Grammar
import StackMachine.Proofs.Descriptor.RoundTrip
import StackMachine.Proofs.Arithmetic
import StackMachine.Proofs.Heap.ArrayAccess
import StackMachine.Proofs.Native.Compaction
import StackMachine.Proofs.ConstantFormat
import StackMachine.Proofs.Native.Lanes
import StackMachine.Proofs.OperandPresence
import StackMachine.Proofs.Native.SearchedKinds

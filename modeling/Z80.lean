import Z80.Word
import Z80.Text.Hex
import Z80.Ticks
import Z80.Flags
import Z80.Arithmetic.Byte
import Z80.Arithmetic.Shift
import Z80.Arithmetic.Pair
import Z80.Arithmetic.Decimal
import Z80.Registers.Basic
import Z80.Registers.Selector
import Z80.Registers.Line
import Z80.Memory.Basic
import Z80.Memory.Block
import Z80.Memory.Checksum
import Z80.Bus.Basic
import Z80.Bus.Traced
import Z80.Bus.Loopback
import Z80.Config
import Z80.Interrupts
import Z80.Instruction.Operand
import Z80.Instruction.Operation
import Z80.Instruction.Page
import Z80.Instruction.Timing
import Z80.Instruction.Latch
import Z80.Instruction.Decode
import Z80.Execution.Plan
import Z80.Execution.Flow
import Z80.Execution.Block
import Z80.Execution.Semantics
import Z80.Execution.Acceptance
import Z80.Event
import Z80.Processor.Basic
import Z80.Processor.Value
import Z80.Processor.Query
import Z80.Processor.Line
import Z80.Machine
import Z80.Snapshot.Json
import Z80.Snapshot.Codec
import Z80.Snapshot.State
import Z80.Sweep
import Z80.Proofs.Implicit
import Z80.Proofs.Latch
import Z80.Proofs.IndexPrefix
import Z80.Proofs.Run
import Z80.Proofs.Command
import Z80.Proofs.Acceptance
import Z80.Proofs.Encoding
import Z80.Proofs.Course
import Z80.Proofs.Duration
import Z80.Proofs.Lockstep
import Z80.Proofs.Hidden
import Z80.Proofs.Interference
import Z80.Proofs.Bookkeeping
import Z80.Proofs.Codec
import Z80.Proofs.Resume
import Z80.Proofs.Stack
import Z80.Proofs.Extended
import Z80.Proofs.Service
import Z80.Proofs.Footprint
import Z80.Proofs.Control
import Z80.Proofs.Transfer
import Z80.Proofs.Reset
import Z80.Proofs.Refresh
import Z80.Proofs.Activity
import Z80.Proofs.Frame
import Z80.Proofs.Shadow
import Z80.Proofs.Emission
import Z80.Proofs.Copy
import Z80.Proofs.PortBlock
import Z80.Proofs.Search
import Z80.Proofs.ByteArithmetic
import Z80.Proofs.ByteOperation
import Z80.Proofs.Grid
import Z80.Proofs.IndexedMemory
import Z80.Proofs.IndexedBits
import Z80.Proofs.PrefixChain
import Z80.Proofs.CarryChain
import Z80.Proofs.PairOperation
import Z80.Proofs.WideArithmetic
import Z80.Proofs.PackedDecimal
import Z80.Proofs.WideShift
import Z80.Proofs.Waiting
import Z80.Proofs.Installation
import Z80.Proofs.Selector
import Z80.Proofs.PollLog
import Z80.Proofs.StackUse
import Z80.Proofs.Nesting
import Z80.Proofs.Locality
import Z80.Proofs.WellFormed
import Z80.Proofs.Query
import Z80.Proofs.Snapshot

import Z80.Bus.Basic
import Z80.Instruction.Page
import Z80.Instruction.Timing
import Z80.Instruction.Latch

/-!
# Decoding

An instruction is a page, an opcode on it, and the displacement and the immediate value that
belong to the operation. Everything else about it (length, duration, what it leaves in the
address latch) follows from these. Decoding looks at the bytes from the first one on; the
function `code` gives the byte at each distance from it.
-/

namespace Z80

/-- A decoded instruction. -/
structure Instruction where
  /-- The page of the opcode. -/
  page : Page
  /-- The opcode. -/
  opcode : UInt8
  /-- The displacement from an index register; zero where there is none. -/
  displacement : Int8 := 0
  /-- The immediate byte or word; zero where there is none. -/
  immediate : UInt16 := 0
  deriving DecidableEq

namespace Instruction

/-- What the instruction does. -/
def operation (i : Instruction) : Operation :=
  i.page.operation i.opcode

/-- Whether the instruction works on memory at a distance from an index register. -/
def isIndexed (i : Instruction) : Bool :=
  i.operation.isIndexed

/-- The number of bytes of the instruction: prefixes, opcode, displacement and immediate
value. -/
def length (i : Instruction) : Nat :=
  i.page.prefixLength + 1 + i.isIndexed.toNat + i.operation.immediateSize

/-- The T-states of the instruction, if no jump is made and nothing repeats. -/
def duration (i : Instruction) : Nat :=
  4 * (i.page.fetches - 1) + i.operation.duration

/-- The T-states added when a jump is made or the instruction repeats. -/
def extraDuration (i : Instruction) : Nat :=
  i.operation.extraDuration

/-- The low byte of the immediate value. -/
def immediateByte (i : Instruction) : UInt8 :=
  low i.immediate

/-- No instruction is shorter than an opcode fetch. -/
theorem four_le_duration (i : Instruction) : 4 ≤ i.duration :=
  Nat.le_trans i.operation.four_le_duration (Nat.le_add_left _ _)

end Instruction

/-- The immediate value of `size` bytes at distance `start`. -/
def immediateValue (code : Nat → UInt8) (start size : Nat) : UInt16 :=
  match size with
  | 0 => 0
  | 1 => (code start).toUInt16
  | _ => word (code (start + 1)) (code start)

/-- The instruction whose opcode on the page is at distance `start`, followed by the
displacement and the immediate value that its operation takes. -/
def decodeFrom (page : Page) (code : Nat → UInt8) (start : Nat) : Instruction :=
  let opcode := code start
  let operation := page.operation opcode
  if operation.isIndexed then
    { page, opcode
      displacement := (code (start + 1)).toInt8
      immediate := immediateValue code (start + 2) operation.immediateSize }
  else
    { page, opcode, immediate := immediateValue code (start + 1) operation.immediateSize }

/-- The instruction behind an index prefix. A prefix that is followed by another one, or by the
prefix of the extended page, stands alone. Behind the prefix of the bit page the displacement
comes before the opcode. -/
def decodeIndexed (x : Index) (code : Nat → UInt8) : Instruction :=
  if code 1 = 0xDD ∨ code 1 = 0xFD ∨ code 1 = 0xED then { page := .lone, opcode := 0 }
  else if code 1 = 0xCB then
    { page := .indexedBits x, opcode := code 3, displacement := (code 2).toInt8 }
  else decodeFrom (.indexed x) code 1

/-- The instruction that starts with the byte `code 0`. -/
def decode (code : Nat → UInt8) : Instruction :=
  if code 0 = 0xCB then decodeFrom .bits code 1
  else if code 0 = 0xED then decodeFrom .extended code 1
  else if code 0 = 0xDD then decodeIndexed .ix code
  else if code 0 = 0xFD then decodeIndexed .iy code
  else decodeFrom .main code 0

/-- The instruction at an address, which is only looked at. -/
def decodeAt {β : Type} [MemoryBus β] (bus : β) (pc : UInt16) : Instruction :=
  decode (MemoryBus.codeAt bus pc)

end Z80

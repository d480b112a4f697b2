import Z80.Arithmetic.Shift
import Z80.Instruction.Operand

/-!
# Operations

An operation is what an opcode stands for: a verb with its operands resolved, but without the
displacement and the immediate value that follow the opcode. Different encodings of one verb
are one operation, and a prefix that selects an index register shows only in the operands.
-/

namespace Z80

/-- What an instruction does. -/
inductive Operation
  /-- Nothing. -/
  | nop
  /-- A prefix byte that stands alone: nothing, but interrupts are held off. -/
  | prefixByte
  /-- An opcode without a meaning: nothing. -/
  | undefined
  /-- Waits for an interrupt. -/
  | halt
  /-- Shuts maskable interrupts out. -/
  | disableInterrupts
  /-- Lets maskable interrupts in, after one more instruction. -/
  | enableInterrupts
  /-- Selects an interrupt mode. -/
  | setMode (mode : UInt8)
  /-- Exchanges AF with its shadow. -/
  | exchangeAF
  /-- Exchanges BC, DE and HL with their shadows. -/
  | exchangeMain
  /-- Exchanges DE with HL. -/
  | exchangeDEHL
  /-- Exchanges a pair with the word on top of the stack. -/
  | exchangeTop (p : Pair)
  /-- Copies a byte. -/
  | load (target source : Operand)
  /-- Loads an immediate byte. -/
  | loadImmediate (target : Operand)
  /-- Loads the accumulator through an address. -/
  | loadAccumulator (source : Pointer)
  /-- Stores the accumulator through an address. -/
  | storeAccumulator (target : Pointer)
  /-- Copies the accumulator to the interrupt page register. -/
  | setInterruptPage
  /-- Copies the accumulator to the refresh counter. -/
  | setRefresh
  /-- Copies the interrupt page register to the accumulator. -/
  | getInterruptPage
  /-- Copies the refresh counter to the accumulator. -/
  | getRefresh
  /-- Loads an immediate word. -/
  | loadPairImmediate (p : Pair)
  /-- Loads a word from an immediate address. -/
  | loadPair (p : Pair)
  /-- Stores a word at an immediate address. -/
  | storePair (p : Pair)
  /-- Copies a pair to the stack pointer. -/
  | loadStackPointer (p : Pair)
  /-- Puts a pair on the stack. -/
  | push (p : Pair)
  /-- Takes a pair from the stack. -/
  | pop (p : Pair)
  /-- Adds one to a byte. -/
  | increment (o : Operand)
  /-- Subtracts one from a byte. -/
  | decrement (o : Operand)
  /-- Combines the accumulator with a byte. -/
  | combine (k : Combination) (source : Operand)
  /-- Combines the accumulator with an immediate byte. -/
  | combineImmediate (k : Combination)
  /-- Negates the accumulator. -/
  | negate
  /-- Adjusts the accumulator after decimal arithmetic. -/
  | decimalAdjust
  /-- Complements the accumulator. -/
  | complement
  /-- Sets the carry flag. -/
  | setCarry
  /-- Complements the carry flag. -/
  | complementCarry
  /-- Adds one to a pair. -/
  | incrementPair (p : Pair)
  /-- Subtracts one from a pair. -/
  | decrementPair (p : Pair)
  /-- Adds a pair to another. -/
  | addPair (target source : Pair)
  /-- Adds a pair and the carry to HL. -/
  | addPairCarry (source : Pair)
  /-- Subtracts a pair and the carry from HL. -/
  | subPairCarry (source : Pair)
  /-- Shifts the accumulator and keeps sign, zero and parity. -/
  | shiftAccumulator (k : Shift)
  /-- Shifts a byte, which may also be copied to a register. -/
  | shift (k : Shift) (o : Operand) (copy : Option ByteRegister)
  /-- Tests a bit. -/
  | testBit (n : Fin 8) (o : Operand)
  /-- Clears a bit of a byte, which may also be copied to a register. -/
  | resetBit (n : Fin 8) (o : Operand) (copy : Option ByteRegister)
  /-- Sets a bit of a byte, which may also be copied to a register. -/
  | setBit (n : Fin 8) (o : Operand) (copy : Option ByteRegister)
  /-- Rotates the digits of the accumulator's low half and the byte at HL to the right. -/
  | rotateDigitsRight
  /-- Rotates the digits of the accumulator's low half and the byte at HL to the left. -/
  | rotateDigitsLeft
  /-- Jumps to an immediate address. -/
  | jump
  /-- Jumps to an immediate address on a condition. -/
  | jumpIf (k : Condition)
  /-- Jumps to the address in a pair. -/
  | jumpTo (p : Pair)
  /-- Jumps over an immediate distance. -/
  | jumpRelative
  /-- Jumps over an immediate distance on a condition. -/
  | jumpRelativeIf (k : Condition)
  /-- Counts B down and jumps over an immediate distance until B is zero. -/
  | countAndJump
  /-- Calls an immediate address. -/
  | call
  /-- Calls an immediate address on a condition. -/
  | callIf (k : Condition)
  /-- Returns from a call. -/
  | ret
  /-- Returns from a call on a condition. -/
  | retIf (k : Condition)
  /-- Returns from an interrupt and puts the saved interrupt enable back. -/
  | retInterrupt
  /-- Calls a fixed address. -/
  | restart (target : UInt16)
  /-- Reads the port numbered by the accumulator and an immediate byte. -/
  | inputAccumulator
  /-- Writes the port numbered by the accumulator and an immediate byte. -/
  | outputAccumulator
  /-- Reads the port numbered by BC, into a register or into the flags only. -/
  | input (target : Option ByteRegister)
  /-- Writes the port numbered by BC, from a register or with zero. -/
  | output (source : Option ByteRegister)
  /-- Copies a byte from HL to DE, until BC is zero if repeating. -/
  | blockTransfer (k : Direction) (repeating : Bool)
  /-- Compares the accumulator with the byte at HL, until found or BC is zero if repeating. -/
  | blockSearch (k : Direction) (repeating : Bool)
  /-- Reads a port to the byte at HL, until B is zero if repeating. -/
  | blockInput (k : Direction) (repeating : Bool)
  /-- Writes the byte at HL to a port, until B is zero if repeating. -/
  | blockOutput (k : Direction) (repeating : Bool)
  deriving DecidableEq

namespace Operand

/-- Whether the operand is memory at a distance from an index register. -/
def isIndexed : Operand → Bool
  | .atIndex _ => true
  | .register _ | .atHL => false

end Operand

/-- The number of bytes that a pointer takes in the instruction. -/
def Pointer.size : Pointer → Nat
  | .bc | .de => 0
  | .direct => 2

namespace Operation

/-- Whether the operation works on memory at a distance from an index register, so that a
displacement belongs to it. -/
def isIndexed : Operation → Bool
  | .load target source => target.isIndexed || source.isIndexed
  | .loadImmediate o | .increment o | .decrement o | .combine _ o | .shift _ o _
  | .testBit _ o | .resetBit _ o _ | .setBit _ o _ => o.isIndexed
  | _ => false

/-- The number of bytes of the immediate value. -/
def immediateSize : Operation → Nat
  | .countAndJump | .jumpRelative | .jumpRelativeIf _ | .loadImmediate _ | .combineImmediate _
  | .inputAccumulator | .outputAccumulator => 1
  | .loadAccumulator p | .storeAccumulator p => p.size
  | .loadPairImmediate _ | .loadPair _ | .storePair _ | .jump | .jumpIf _ | .call
  | .callIf _ => 2
  | _ => 0

end Operation

end Z80

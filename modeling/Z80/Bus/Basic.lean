import Z80.Memory.Basic

/-!
# Buses

The processor sees memory and ports through a bus. A memory bus is read and written at 16-bit
addresses and can also be looked at without being disturbed, which is all that decoding an
instruction does. A bus has ports beside it, addressed by full words as well. Every access
lands somewhere, so none can fail, but reading may change the bus.
-/

namespace Z80

/-- What can be read and written as memory. -/
class MemoryBus (β : Type) where
  /-- Looks at a byte and leaves everything as it is. -/
  peek : β → UInt16 → UInt8
  /-- Reads a byte. -/
  read : β → UInt16 → UInt8 × β
  /-- Writes a byte. -/
  write : β → UInt16 → UInt8 → β

/-- Memory with ports beside it. -/
class Bus (β : Type) extends MemoryBus β where
  /-- Reads a port. -/
  input : β → UInt16 → UInt8 × β
  /-- Writes a port. -/
  output : β → UInt16 → UInt8 → β

/-- Plain memory is a memory bus that reading does not change. -/
instance : MemoryBus Memory where
  peek := Memory.read
  read m a := (m.read a, m)
  write := Memory.write

namespace MemoryBus

variable {β : Type} [MemoryBus β]

/-- Reads a word: the low byte at `a`, then the high byte at the next address. -/
def readWord (bus : β) (a : UInt16) : UInt16 × β :=
  let lo := read bus a
  let hi := read lo.2 (a + 1)
  (word hi.1 lo.1, hi.2)

/-- Writes a word: the low byte at `a`, then the high byte at the next address. -/
def writeWord (bus : β) (a v : UInt16) : β :=
  write (write bus a (low v)) (a + 1) (high v)

/-- Puts a word on a stack whose top is at `sp`: the high byte just below it, then the low byte
below that. -/
def pushWord (bus : β) (sp v : UInt16) : β :=
  write (write bus (sp - 1) (high v)) (sp - 2) (low v)

/-- The bytes found from an address upwards. -/
def codeAt (bus : β) (a : UInt16) : Nat → UInt8 :=
  fun i => peek bus (a + UInt16.ofNat i)

end MemoryBus

end Z80

import Z80.Memory.Basic

/-!
# Checksum of a memory

A 64-bit checksum over all bytes from address 0 up. Each byte is mixed in by exclusive
disjunction, and the sum is then multiplied by a fixed prime.
-/

namespace Z80.Memory

/-- The checksum of no bytes. -/
def checksumBasis : UInt64 :=
  0xCBF29CE484222325

/-- The factor of each round. -/
def checksumPrime : UInt64 :=
  0x100000001B3

/-- The checksum of a list of bytes that follows bytes with checksum `sum`. -/
def checksumFrom (sum : UInt64) (block : List UInt8) : UInt64 :=
  block.foldl (fun sum v => (sum ^^^ v.toUInt64) * checksumPrime) sum

/-- The checksum of a whole memory. -/
def checksum (m : Memory) : UInt64 :=
  checksumFrom checksumBasis m.toList

end Z80.Memory

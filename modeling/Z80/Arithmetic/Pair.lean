import Z80.Flags

/-!
# Arithmetic on words

Sums and differences of register pairs. The half carry is the carry out of bit 11, and the two
bit copies come from the high byte of the result, so the flags are those of the operation on
the high bytes.
-/

namespace Z80

/-- The value and the flags that an operation on words gives. -/
structure PairResult where
  /-- The value. -/
  value : UInt16
  /-- The new flag register. -/
  flags : Flags
  deriving DecidableEq

namespace Arithmetic

/-- The sum of two words. Sign, zero and parity are kept from `f`. -/
def addPair (a b : UInt16) (f : Flags) : PairResult :=
  let sum := a.toNat + b.toNat
  let value := UInt16.ofNat sum
  { value
    flags := { f.copyBits (high value) with
      h := decide (4095 < a.toNat % 4096 + b.toNat % 4096)
      n := false
      c := decide (65535 < sum) } }

/-- The sum of two words and a carry. -/
def addPairCarry (a b : UInt16) (carry : Bool) : PairResult :=
  let sum := a.toNat + b.toNat + carry.toNat
  let value := UInt16.ofNat sum
  { value
    flags := { Flags.ofValue (high value) with
      z := value == 0
      h := decide (4095 < a.toNat % 4096 + b.toNat % 4096 + carry.toNat)
      p := bit (high a) 7 == bit (high b) 7 && bit (high value) 7 != bit (high a) 7
      c := decide (65535 < sum) } }

/-- The difference of two words and a borrow. -/
def subPairCarry (a b : UInt16) (borrow : Bool) : PairResult :=
  let value := a - b - borrow.toUInt16
  { value
    flags := { Flags.ofValue (high value) with
      z := value == 0
      h := decide (a.toNat % 4096 < b.toNat % 4096 + borrow.toNat)
      p := bit (high a) 7 != bit (high b) 7 && bit (high value) 7 != bit (high a) 7
      n := true
      c := decide (a.toNat < b.toNat + borrow.toNat) } }

end Arithmetic

end Z80

import Z80.Arithmetic.Byte

/-!
# Shifts and single bits

A shift moves a byte by one place. The bit that leaves goes to the carry flag, and the eight
shifts differ only in the direction and in the bit that enters at the other end.
-/

namespace Z80

/-- The eight shifts by one place. -/
inductive Shift
  /-- Left, the leaving bit enters. -/
  | rotateLeft
  /-- Right, the leaving bit enters. -/
  | rotateRight
  /-- Left, the carry flag enters. -/
  | throughLeft
  /-- Right, the carry flag enters. -/
  | throughRight
  /-- Left, a clear bit enters. -/
  | arithmeticLeft
  /-- Right, the sign bit is kept. -/
  | arithmeticRight
  /-- Left, a set bit enters. -/
  | onesLeft
  /-- Right, a clear bit enters. -/
  | logicalRight
  deriving DecidableEq

namespace Shift

/-- Whether the shift moves bits towards the most significant end. -/
def isLeft : Shift → Bool
  | .rotateLeft | .throughLeft | .arithmeticLeft | .onesLeft => true
  | .rotateRight | .throughRight | .arithmeticRight | .logicalRight => false

/-- The bit that is shifted out. -/
def leaving (k : Shift) (v : UInt8) : Bool :=
  bit v (if k.isLeft then 7 else 0)

/-- The bit that is shifted in. -/
def entering (k : Shift) (v : UInt8) (carry : Bool) : Bool :=
  match k with
  | .rotateLeft | .rotateRight => k.leaving v
  | .throughLeft | .throughRight => carry
  | .arithmeticLeft | .logicalRight => false
  | .arithmeticRight => bit v 7
  | .onesLeft => true

/-- The shifted byte. -/
def value (k : Shift) (v : UInt8) (carry : Bool) : UInt8 :=
  if k.isLeft then v * 2 + (k.entering v carry).toUInt8
  else v / 2 + (k.entering v carry).toUInt8 * 128

/-- The shifted byte with the flags that describe it. -/
def apply (k : Shift) (v : UInt8) (carry : Bool) : Result :=
  { value := k.value v carry
    flags := { Flags.ofParity (k.value v carry) with c := k.leaving v } }

/-- The flags of a shift of the accumulator alone: sign, zero and parity stay as they were. -/
def accumulatorFlags (k : Shift) (a : UInt8) (f : Flags) : Flags :=
  { f.copyBits (k.value a f.c) with h := false, n := false, c := k.leaving a }

end Shift

namespace Arithmetic

/-- The flags of a test of bit `n` of `v`. The two bit copies come from `source`, which is not
the tested byte when that byte is in memory. -/
def testBit (n : Fin 8) (v source : UInt8) (carry : Bool) : Flags where
  s := n == 7 && bit v 7
  z := !bit v n
  y := bit source 5
  h := true
  x := bit source 3
  p := !bit v n
  n := false
  c := carry

/-- The byte with bit `n` cleared. -/
def resetBit (n : Fin 8) (v : UInt8) : UInt8 :=
  v &&& ~~~(1 <<< UInt8.ofNat n)

/-- The byte with bit `n` set. -/
def setBit (n : Fin 8) (v : UInt8) : UInt8 :=
  v ||| 1 <<< UInt8.ofNat n

end Arithmetic

end Z80

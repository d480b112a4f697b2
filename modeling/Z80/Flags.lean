import Z80.Word

/-!
# The flag register

Eight flags record what the last operation did: sign, zero, half carry, parity or overflow,
subtraction and carry, and two without a documented meaning that copy bits 5 and 3 of some
byte. The register is kept as the eight flags and read or written as one byte where a program
can see it as a byte.
-/

namespace Z80

/-- The eight flags, from bit 7 down to bit 0 of the register. -/
inductive Flag
  /-- Sign: the result is negative. -/
  | s
  /-- Zero: the result is zero. -/
  | z
  /-- Copy of bit 5. -/
  | y
  /-- Half carry: a carry from the low to the high digit. -/
  | h
  /-- Copy of bit 3. -/
  | x
  /-- Parity of the result, or overflow of a signed sum. -/
  | p
  /-- The last operation was a subtraction. -/
  | n
  /-- Carry out of the top bit. -/
  | c
  deriving DecidableEq

/-- The byte in which only the given flag is set. -/
def Flag.mask : Flag → UInt8
  | .s => 128
  | .z => 64
  | .y => 32
  | .h => 16
  | .x => 8
  | .p => 4
  | .n => 2
  | .c => 1

/-- The state of the flag register. -/
structure Flags where
  /-- Sign. -/
  s : Bool
  /-- Zero. -/
  z : Bool
  /-- Copy of bit 5. -/
  y : Bool
  /-- Half carry. -/
  h : Bool
  /-- Copy of bit 3. -/
  x : Bool
  /-- Parity or overflow. -/
  p : Bool
  /-- Subtraction. -/
  n : Bool
  /-- Carry. -/
  c : Bool
  deriving DecidableEq

namespace Flags

/-- Whether a flag is set. -/
def get (f : Flags) : Flag → Bool
  | .s => f.s
  | .z => f.z
  | .y => f.y
  | .h => f.h
  | .x => f.x
  | .p => f.p
  | .n => f.n
  | .c => f.c

/-- The register read as a byte. -/
def toByte (f : Flags) : UInt8 :=
  f.s.toUInt8 * 128 + f.z.toUInt8 * 64 + f.y.toUInt8 * 32 + f.h.toUInt8 * 16 +
    f.x.toUInt8 * 8 + f.p.toUInt8 * 4 + f.n.toUInt8 * 2 + f.c.toUInt8

/-- The register written as a byte. -/
def ofByte (v : UInt8) : Flags where
  s := bit v 7
  z := bit v 6
  y := bit v 5
  h := bit v 4
  x := bit v 3
  p := bit v 2
  n := bit v 1
  c := bit v 0

/-- A register written as a byte and read back as flags is unchanged. -/
@[simp] theorem ofByte_toByte (f : Flags) : ofByte f.toByte = f := by
  obtain ⟨s, z, y, h, x, p, n, c⟩ := f
  revert s z y h x p n c
  decide

set_option maxRecDepth 4000 in
/-- A byte written to the register is read back. -/
@[simp] theorem toByte_ofByte (v : UInt8) : (ofByte v).toByte = v := by
  have all : ∀ n : Fin 256, (ofByte (UInt8.ofNat n)).toByte = UInt8.ofNat n := by decide
  simpa using all ⟨v.toNat, v.toNat_lt⟩

/-- The number of bits that are set in a byte. -/
def ones (v : UInt8) : Nat :=
  (List.range 8).countP (bit v)

/-- Parity: a byte with an even number of set bits. -/
def parity (v : UInt8) : Bool :=
  ones v % 2 == 0

/-- Sign, zero and the two bit copies of a result; all other flags are clear. -/
def ofValue (v : UInt8) : Flags where
  s := bit v 7
  z := v == 0
  y := bit v 5
  h := false
  x := bit v 3
  p := false
  n := false
  c := false

/-- Sign, zero, the two bit copies and the parity of a result; all other flags are clear. -/
def ofParity (v : UInt8) : Flags :=
  { ofValue v with p := parity v }

/-- The flags with the two bit copies taken from a byte. -/
def copyBits (f : Flags) (v : UInt8) : Flags :=
  { f with y := bit v 5, x := bit v 3 }

end Flags

end Z80

import Z80.Arithmetic.Byte

/-!
# Decimal adjustment

Two decimal digits can be kept in one byte, one in each half. After a sum or a difference of
such bytes the adjustment brings each half back into the range of a digit: it adds or subtracts
6 in a half that carried or that holds more than 9.
-/

namespace Z80.Arithmetic

/-- Whether the low digit of `a` needs a correction. -/
def lowNeedsCorrection (a : UInt8) (f : Flags) : Bool :=
  f.h || decide (9 < a.toNat % 16)

/-- Whether the high digit of `a` needs a correction, which is also the new carry. -/
def highNeedsCorrection (a : UInt8) (f : Flags) : Bool :=
  f.c || decide (153 < a.toNat)

/-- The amount that the adjustment adds or subtracts. -/
def correction (a : UInt8) (f : Flags) : UInt8 :=
  (lowNeedsCorrection a f).toUInt8 * 6 + (highNeedsCorrection a f).toUInt8 * 96

/-- The decimal adjustment of `a` after an operation that left the flags `f`. -/
def decimalAdjust (a : UInt8) (f : Flags) : Result :=
  let value := if f.n then a - correction a f else a + correction a f
  { value
    flags := { Flags.ofParity value with
      h := if f.n then f.h && decide (a.toNat % 16 < 6) else decide (9 < a.toNat % 16)
      n := f.n
      c := highNeedsCorrection a f } }

end Z80.Arithmetic

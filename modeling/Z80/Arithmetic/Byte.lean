import Z80.Flags

/-!
# Arithmetic on bytes

Sums and differences with a carry, the bitwise operations, comparison, and counting up and
down by one. Each operation gives its value together with the complete new flag register.
Carries are stated on natural numbers: a sum carries when it does not fit, a difference
borrows when the minuend is too small.
-/

namespace Z80

/-- The value and the flags that an operation on bytes gives. -/
structure Result where
  /-- The value. -/
  value : UInt8
  /-- The new flag register. -/
  flags : Flags
  deriving DecidableEq

namespace Arithmetic

/-- The sum of two bytes and a carry. Overflow means that two operands of one sign gave a
value of the other. -/
def add (a b : UInt8) (carry : Bool) : Result :=
  let sum := a.toNat + b.toNat + carry.toNat
  let value := UInt8.ofNat sum
  { value
    flags := { Flags.ofValue value with
      h := decide (15 < a.toNat % 16 + b.toNat % 16 + carry.toNat)
      p := bit a 7 == bit b 7 && bit value 7 != bit a 7
      c := decide (255 < sum) } }

/-- The difference of two bytes and a borrow. Overflow means that operands of different signs
gave a value whose sign is not that of the minuend. -/
def sub (a b : UInt8) (borrow : Bool) : Result :=
  let value := a - b - borrow.toUInt8
  { value
    flags := { Flags.ofValue value with
      h := decide (a.toNat % 16 < b.toNat % 16 + borrow.toNat)
      p := bit a 7 != bit b 7 && bit value 7 != bit a 7
      n := true
      c := decide (a.toNat < b.toNat + borrow.toNat) } }

/-- Bitwise conjunction, which always sets the half carry. -/
def and (a b : UInt8) : Result :=
  { value := a &&& b, flags := { Flags.ofParity (a &&& b) with h := true } }

/-- Bitwise exclusive disjunction. -/
def xor (a b : UInt8) : Result :=
  { value := a ^^^ b, flags := Flags.ofParity (a ^^^ b) }

/-- Bitwise disjunction. -/
def or (a b : UInt8) : Result :=
  { value := a ||| b, flags := Flags.ofParity (a ||| b) }

/-- Comparison: the flags of a difference, with the two bit copies taken from the subtrahend,
and the minuend as value. -/
def compare (a b : UInt8) : Result :=
  { value := a, flags := (sub a b false).flags.copyBits b }

/-- One more than a byte. The carry flag is kept and given as `carry`. -/
def increment (a : UInt8) (carry : Bool) : Result :=
  let value := a + 1
  { value
    flags := { Flags.ofValue value with
      h := a.toNat % 16 == 15
      p := a == 127
      c := carry } }

/-- One less than a byte. The carry flag is kept and given as `carry`. -/
def decrement (a : UInt8) (carry : Bool) : Result :=
  let value := a - 1
  { value
    flags := { Flags.ofValue value with
      h := a.toNat % 16 == 0
      p := a == 128
      n := true
      c := carry } }

end Arithmetic

/-- The eight operations that combine the accumulator with an operand. -/
inductive Combination
  /-- Sum. -/
  | add
  /-- Sum with the carry flag. -/
  | addCarry
  /-- Difference. -/
  | sub
  /-- Difference with the carry flag as borrow. -/
  | subCarry
  /-- Bitwise conjunction. -/
  | and
  /-- Bitwise exclusive disjunction. -/
  | xor
  /-- Bitwise disjunction. -/
  | or
  /-- Comparison. -/
  | compare
  deriving DecidableEq

/-- The result of combining the accumulator `a` with the operand `b`. -/
def Combination.apply (k : Combination) (a b : UInt8) (carry : Bool) : Result :=
  match k with
  | .add => Arithmetic.add a b false
  | .addCarry => Arithmetic.add a b carry
  | .sub => Arithmetic.sub a b false
  | .subCarry => Arithmetic.sub a b carry
  | .and => Arithmetic.and a b
  | .xor => Arithmetic.xor a b
  | .or => Arithmetic.or a b
  | .compare => Arithmetic.compare a b

end Z80

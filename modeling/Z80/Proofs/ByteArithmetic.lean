import Mathlib.Algebra.Group.Nat.Even
import Mathlib.Data.Finset.Card
import Mathlib.Data.Finset.Range
import Z80.Proofs.Opcode

/-!
# Arithmetic on bytes in integers

The operations that combine the accumulator with a byte are given by carries between digits and by
signs.  Here they are described by the exact integers behind them: a sum or a difference is what is left
of the exact one modulo 256, it carries if the exact one of the unsigned bytes leaves the range of a
byte, and it overflows if that of the signed bytes leaves the range of a signed byte.  The bitwise
operations are described bit by bit.

`Combination.Lawful` collects the description of all eight operations, and `Combination.apply_lawful`
says that it holds.
-/

namespace Z80

/-! ## Bytes as integers -/

/-- The highest bit of a byte is set from 128 on. -/
lemma bit_seven (v : UInt8) : bit v 7 = decide (128 ≤ v.toNat) := by
  revert v
  exact forall_byte (by decide +kernel)

/-- A byte with the highest bit set stands for a negative number. -/
lemma toInt_toInt8 (v : UInt8) :
    v.toInt8.toInt = if 128 ≤ v.toNat then (v.toNat : Int) - 256 else v.toNat := by
  revert v
  exact forall_byte (by decide +kernel)

/-- A distance is added as a signed number, around the end of the address space. -/
lemma toNat_displaced (base : UInt16) (d : UInt8) :
    ((displaced base d.toInt8).toNat : Int) = (base.toNat + d.toInt8.toInt) % 65536 := by
  have hextended : ∀ d : UInt8, d.toInt8.toInt16.toUInt16.toNat =
      if 128 ≤ d.toNat then d.toNat + 65280 else d.toNat := forall_byte (by decide +kernel)
  have hbase := base.toNat_lt
  have hd := d.toNat_lt
  rw [displaced, UInt16.toNat_add, hextended, toInt_toInt8]
  split <;> omega

/-- The exact sum of two integers and a carry, or their exact difference. -/
def exactValue (subtracts : Bool) (a b : Int) (carry : Bool) : Int :=
  if subtracts = true then a - b - carry.toNat else a + b + carry.toNat

@[simp] lemma exactValue_false (a b : Int) (carry : Bool) :
    exactValue false a b carry = a + b + carry.toNat := rfl

@[simp] lemma exactValue_true (a b : Int) (carry : Bool) :
    exactValue true a b carry = a - b - carry.toNat := rfl

/-- An integer lies outside a range. -/
def Leaves (x lo hi : Int) : Prop :=
  x < lo ∨ hi < x

/-! ## What the flags say -/

/-- Sign and zero describe a byte, and the two bit copies are taken from a byte. -/
structure Flags.Describe (f : Flags) (w shown : UInt8) : Prop where
  /-- The sign is the highest bit. -/
  sign : f.s = bit w 7
  /-- Zero is marked. -/
  zero : f.z = true ↔ w = 0
  /-- The copy of bit 5. -/
  copyFive : f.y = bit shown 5
  /-- The copy of bit 3. -/
  copyThree : f.x = bit shown 3

/-- The byte `w` and the flags `f` are those of the exact sum or difference of two bytes and a carry. -/
structure Flags.Calculated (f : Flags) (subtracts : Bool) (a b : UInt8) (carry : Bool) (w : UInt8) :
    Prop where
  /-- The value is the exact one modulo 256. -/
  value : (w.toNat : Int) = exactValue subtracts a.toNat b.toNat carry % 256
  /-- The carry says that the unsigned result does not fit into a byte. -/
  carryOut : f.c = true ↔ Leaves (exactValue subtracts a.toNat b.toNat carry) 0 255
  /-- The half carry says that the result of the low digits does not fit into a digit. -/
  halfCarry : f.h = true ↔ Leaves (exactValue subtracts (a.toNat % 16) (b.toNat % 16) carry) 0 15
  /-- Overflow says that the signed result does not fit into a signed byte. -/
  overflow : f.p = true ↔
    Leaves (exactValue subtracts a.toInt8.toInt b.toInt8.toInt carry) (-128) 127
  /-- The operation is told. -/
  subtraction : f.n = subtracts

/-- The byte `w` and the flags `f` are those of an operation on the bits of two bytes. -/
structure Flags.Bitwise (f : Flags) (op : Bool → Bool → Bool) (half : Bool) (a b w : UInt8) :
    Prop where
  /-- Each bit follows from the two bits in its place. -/
  value : ∀ n, bit w n = op (bit a n) (bit b n)
  /-- Parity says that an even number of bits is set. -/
  parity : f.p = true ↔ Even (Finset.card {n ∈ Finset.range 8 | bit w n = true})
  /-- The half carry is the same for all bytes. -/
  halfCarry : f.h = half
  /-- Nothing is subtracted. -/
  subtraction : f.n = false
  /-- Nothing is carried. -/
  carryOut : f.c = false

/-- What a combination of the accumulator `a` with a byte `b` has to leave in the accumulator and in the
flags.  A comparison has the flags of the difference, which it does not keep. -/
def Combination.Lawful (k : Combination) (a b : UInt8) (carry : Bool) (result : Result) : Prop :=
  let w := result.value
  let f := result.flags
  match k with
  | .add => f.Calculated false a b false w ∧ f.Describe w w
  | .addCarry => f.Calculated false a b carry w ∧ f.Describe w w
  | .sub => f.Calculated true a b false w ∧ f.Describe w w
  | .subCarry => f.Calculated true a b carry w ∧ f.Describe w w
  | .and => f.Bitwise Bool.and true a b w ∧ f.Describe w w
  | .xor => f.Bitwise Bool.xor false a b w ∧ f.Describe w w
  | .or => f.Bitwise Bool.or false a b w ∧ f.Describe w w
  | .compare => w = a ∧ ∃ difference, f.Calculated true a b false difference ∧ f.Describe difference b

/-! ## Sums and differences -/

namespace Arithmetic

variable (a b : UInt8) (carry : Bool)

/-- Two operands of one sign whose sum has the other sign have left the signed range. -/
lemma overflow_add (w : UInt8) (hw : w.toNat = (a.toNat + b.toNat + carry.toNat) % 256) :
    (bit a 7 == bit b 7 && bit w 7 != bit a 7) = true ↔
      Leaves (exactValue false a.toInt8.toInt b.toInt8.toInt carry) (-128) 127 := by
  have ha := a.toNat_lt
  have hb := b.toNat_lt
  have hcarry := carry.toNat_le
  rw [toInt_toInt8, toInt_toInt8, exactValue_false, Leaves, bit_seven, bit_seven, bit_seven, hw]
  by_cases hsign : 128 ≤ a.toNat <;> by_cases hsign' : 128 ≤ b.toNat <;> simp [hsign, hsign'] <;> omega

/-- Operands of different signs whose difference has not the sign of the minuend have left the signed
range. -/
lemma overflow_sub (w : UInt8) (hw : w.toNat = (512 + a.toNat - b.toNat - carry.toNat) % 256) :
    (bit a 7 != bit b 7 && bit w 7 != bit a 7) = true ↔
      Leaves (exactValue true a.toInt8.toInt b.toInt8.toInt carry) (-128) 127 := by
  have ha := a.toNat_lt
  have hb := b.toNat_lt
  have hcarry := carry.toNat_le
  rw [toInt_toInt8, toInt_toInt8, exactValue_true, Leaves, bit_seven, bit_seven, bit_seven, hw]
  by_cases hsign : 128 ≤ a.toNat <;> by_cases hsign' : 128 ≤ b.toNat <;> simp [hsign, hsign'] <;> omega

/-- A sum is the exact one as far as it fits. -/
lemma calculated_add : (add a b carry).flags.Calculated false a b carry (add a b carry).value := by
  have ha := a.toNat_lt
  have hb := b.toNat_lt
  have hcarry := carry.toNat_le
  have hvalue : (add a b carry).value.toNat = (a.toNat + b.toNat + carry.toNat) % 256 :=
    UInt8.toNat_ofNat'
  refine ⟨?_, ?_, ?_, overflow_add a b carry _ hvalue, rfl⟩
  · rw [hvalue, exactValue_false]
    omega
  · simp only [add, exactValue_false, Leaves, decide_eq_true_eq]
    omega
  · simp only [add, exactValue_false, Leaves, decide_eq_true_eq]
    omega

/-- The flags of a sum describe it. -/
lemma describe_add : (add a b carry).flags.Describe (add a b carry).value (add a b carry).value :=
  ⟨rfl, beq_iff_eq, rfl, rfl⟩

/-- A difference is the exact one as far as it fits. -/
lemma calculated_sub : (sub a b carry).flags.Calculated true a b carry (sub a b carry).value := by
  have ha := a.toNat_lt
  have hb := b.toNat_lt
  have hcarry := carry.toNat_le
  have hborrow : carry.toUInt8.toNat = carry.toNat := by cases carry <;> rfl
  have hvalue : (sub a b carry).value.toNat = (512 + a.toNat - b.toNat - carry.toNat) % 256 := by
    simp only [sub, UInt8.toNat_sub, hborrow]
    omega
  refine ⟨?_, ?_, ?_, overflow_sub a b carry _ hvalue, rfl⟩
  · rw [hvalue, exactValue_true]
    omega
  · simp only [sub, exactValue_true, Leaves, decide_eq_true_eq]
    omega
  · simp only [sub, exactValue_true, Leaves, decide_eq_true_eq]
    omega

/-- The flags of a difference describe it. -/
lemma describe_sub : (sub a b carry).flags.Describe (sub a b carry).value (sub a b carry).value :=
  ⟨rfl, beq_iff_eq, rfl, rfl⟩

/-! ## Bitwise operations -/

/-- Parity counts the bits that are set. -/
lemma parity_iff (w : UInt8) :
    Flags.parity w = true ↔ Even (Finset.card {n ∈ Finset.range 8 | bit w n = true}) := by
  rw [Nat.even_iff]
  revert w
  exact forall_byte (by decide +kernel)

/-- A bitwise operation whose flags are sign, zero, parity and the two bit copies of its value. -/
lemma bitwise_ofParity {op : Bool → Bool → Bool} {w : UInt8}
    (h : ∀ n, bit w n = op (bit a n) (bit b n)) (half : Bool) :
    ({ Flags.ofParity w with h := half } : Flags).Bitwise op half a b w ∧
      ({ Flags.ofParity w with h := half } : Flags).Describe w w :=
  ⟨⟨h, parity_iff w, rfl, rfl, rfl⟩, ⟨rfl, beq_iff_eq, rfl, rfl⟩⟩

end Arithmetic

open Arithmetic in
/-- All eight combinations of the accumulator with a byte are lawful. -/
lemma Combination.apply_lawful (k : Combination) (a b : UInt8) (carry : Bool) :
    k.Lawful a b carry (k.apply a b carry) := by
  cases k with
  | add => exact ⟨calculated_add a b false, describe_add a b false⟩
  | addCarry => exact ⟨calculated_add a b carry, describe_add a b carry⟩
  | sub => exact ⟨calculated_sub a b false, describe_sub a b false⟩
  | subCarry => exact ⟨calculated_sub a b carry, describe_sub a b carry⟩
  | and => exact bitwise_ofParity a b (fun n => by simp [bit, Nat.testBit_and]) true
  | xor => exact bitwise_ofParity a b (fun n => by simp [bit, Nat.testBit_xor]) false
  | or => exact bitwise_ofParity a b (fun n => by simp [bit, Nat.testBit_or]) false
  | compare =>
    obtain ⟨hvalue, hcarry, hhalf, hoverflow, hsubtraction⟩ := calculated_sub a b false
    obtain ⟨hsign, hzero, -, -⟩ := describe_sub a b false
    refine ⟨rfl, (Arithmetic.sub a b false).value, ?_, ?_⟩
    · exact ⟨hvalue, hcarry, hhalf, hoverflow, hsubtraction⟩
    · exact { sign := hsign, zero := hzero, copyFive := rfl, copyThree := rfl }

end Z80

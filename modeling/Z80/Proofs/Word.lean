import Mathlib.Tactic.Common
import Z80.Arithmetic.Byte

/-!
# Small facts about bytes and words

Counting a byte or a word down reaches zero from one only and goes on like counting a number down
until then, a difference is zero for equal bytes only, the low byte of a widened byte is that byte, and the
two bytes of a word are its remainder and its quotient by 256.
-/

namespace Z80

/-- The low byte of a widened byte is that byte. -/
@[simp] lemma low_toUInt16 (v : UInt8) : low v.toUInt16 = v := by
  simp [low]

/-- The low byte is what is left over of whole multiples of 256. -/
lemma toNat_low (w : UInt16) : (low w).toNat = w.toNat % 256 := by
  simp [low]

/-- The high byte counts whole multiples of 256. -/
lemma toNat_high (w : UInt16) : (high w).toNat = w.toNat / 256 := by
  have := w.toNat_lt
  simp [high]
  omega

/-- The low byte of a sum with one is the sum of the low byte with one. -/
@[simp] lemma low_add_one (w : UInt16) : low (w + 1) = low w + 1 := by
  simp [low]

/-- The low byte of a difference with one is the difference of the low byte with one. -/
@[simp] lemma low_sub_one (w : UInt16) : low (w - 1) = low w - 1 := by
  simp [low]

/-- A word counts down like a number until it is zero. -/
lemma toNat_sub_ofNat {w : UInt16} {n : Nat} (h : n ≤ w.toNat) :
    (w - UInt16.ofNat n).toNat = w.toNat - n := by
  have hn : (UInt16.ofNat n).toNat = n :=
    UInt16.toNat_ofNat_of_lt (Nat.lt_of_le_of_lt h w.toNat_lt)
  rw [UInt16.toNat_sub_of_le, hn]
  rw [UInt16.le_iff_toNat_le, hn]
  exact h

/-- A byte counts down to zero from one only. -/
lemma byte_sub_one_eq_zero (v : UInt8) : v - 1 = 0 ↔ v = 1 := by
  grind

/-- A word counts down to zero from one only. -/
lemma word_sub_one_eq_zero (w : UInt16) : w - 1 = 0 ↔ w = 1 := by
  grind

/-- A difference without borrow is zero for equal bytes only. -/
lemma Arithmetic.value_sub_eq_zero (a b : UInt8) : (sub a b false).value = 0 ↔ a = b := by
  have h : false.toUInt8 = 0 := rfl
  simp only [sub, h]
  grind

/-! The same facts as tests, the form in which the operations ask for them. -/

lemma byte_sub_one_ne_zero (v : UInt8) : (v - 1 != 0) = (v != 1) := by
  rw [Bool.eq_iff_iff, bne_iff_ne, bne_iff_ne, Ne, Ne, byte_sub_one_eq_zero]

lemma word_sub_one_ne_zero (w : UInt16) : (w - 1 != 0) = (w != 1) := by
  rw [Bool.eq_iff_iff, bne_iff_ne, bne_iff_ne, Ne, Ne, word_sub_one_eq_zero]

lemma Arithmetic.value_sub_ne_zero (a b : UInt8) : ((sub a b false).value != 0) = (a != b) := by
  rw [Bool.eq_iff_iff, bne_iff_ne, bne_iff_ne, Ne, Ne, value_sub_eq_zero]

end Z80

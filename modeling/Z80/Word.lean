/-!
# Bytes and words

The processor handles 8-bit bytes and 16-bit words. A word is a pair of bytes, the high one
first, and every sum wraps around. The lemmas of this file say that splitting a word and
putting it together again are inverse to each other.
-/

namespace Z80

/-- Bit `n` of a byte, counted from the least significant one. -/
def bit (v : UInt8) (n : Nat) : Bool :=
  v.toNat.testBit n

/-- The word with the given high and low bytes. -/
def word (hi lo : UInt8) : UInt16 :=
  hi.toUInt16 * 256 + lo.toUInt16

/-- The high byte of a word. -/
def high (w : UInt16) : UInt8 :=
  (w / 256).toUInt8

/-- The low byte of a word. -/
def low (w : UInt16) : UInt8 :=
  w.toUInt8

/-- The address at a signed distance `d` from `base`, around the end of the address space. -/
def displaced (base : UInt16) (d : Int8) : UInt16 :=
  base + d.toInt16.toUInt16

/-- The number that a word stands for is 256 times its high byte plus its low byte. -/
theorem toNat_word (hi lo : UInt8) : (word hi lo).toNat = hi.toNat * 256 + lo.toNat := by
  have := hi.toNat_lt
  have := lo.toNat_lt
  simp [word, UInt16.toNat_add, UInt16.toNat_mul]
  omega

/-- The high byte of a word is the byte put there. -/
@[simp] theorem high_word (hi lo : UInt8) : high (word hi lo) = hi := by
  have := hi.toNat_lt
  have := lo.toNat_lt
  apply UInt8.toNat_inj.1
  simp [high, toNat_word]
  omega

/-- The low byte of a word is the byte put there. -/
@[simp] theorem low_word (hi lo : UInt8) : low (word hi lo) = lo := by
  have := lo.toNat_lt
  apply UInt8.toNat_inj.1
  simp [low, toNat_word]

/-- A word is made of its high and low bytes. -/
@[simp] theorem word_high_low (w : UInt16) : word (high w) (low w) = w := by
  have := w.toNat_lt
  apply UInt16.toNat_inj.1
  simp [high, low, toNat_word]
  omega

end Z80

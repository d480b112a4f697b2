import Z80.Proofs.CarryChain
import Z80.Proofs.PairOperation
import Z80.Proofs.Word

/-!
# Sums and differences of any width

A chain of sums of bytes through the carry flag is the sum of the numbers that the bytes stand for, and a
chain of differences is their difference.  The carry in the end stands for the place after the last byte,
and overflow and sign are those of the signed number that all bytes together stand for: they are left by
the operation on the last bytes, and what the bytes below contribute is less than one of its units.

The operations on words are such chains of two bytes, except that zero describes the whole word.  They are
found in the instructions that add a pair to HL or to an index register, with or without the carry, and
subtract one.
-/

namespace Z80

/-! ## Numbers in binary -/

/-- The signed number that bytes stand for: the upper half of the range is negative. -/
def signedValue (xs : List UInt8) : Int :=
  if 256 ^ xs.length ≤ 2 * Numeral.binary.value xs then Numeral.binary.value xs - 256 ^ xs.length
  else Numeral.binary.value xs

/-- Overflow and sign describe the signed number that the bytes `ws` stand for, as what is left of an exact
one. -/
structure Flags.Signed (f : Flags) (exact : Int) (ws : List UInt8) : Prop where
  /-- Overflow says that the exact number does not fit into the bytes. -/
  overflow : f.p = true ↔ Leaves exact (-(2 ^ (8 * ws.length - 1))) (2 ^ (8 * ws.length - 1) - 1)
  /-- Without overflow, the number is exact. -/
  exact : f.p = false → signedValue ws = exact
  /-- The sign is that of the number. -/
  sign : f.s = true ↔ signedValue ws < 0

/-- The first byte is the lowest one. -/
lemma Numeral.binary_cons (x : UInt8) (xs : List UInt8) :
    binary.value (x :: xs) = x.toNat + 256 * binary.value xs :=
  value_cons binary x xs

/-- The last byte is the highest one. -/
lemma Numeral.binary_concat (xs : List UInt8) (x : UInt8) :
    binary.value (xs ++ [x]) = binary.value xs + 256 ^ xs.length * x.toNat := by
  rw [value_append, value_cons, value_nil]
  rfl

/-- Every byte is less than the base. -/
lemma Numeral.binary_digit_lt (xs : List UInt8) : ∀ d ∈ xs.map UInt8.toNat, d < 256 := by
  intro d hd
  obtain ⟨x, -, rfl⟩ := List.mem_map.1 hd
  exact x.toNat_lt

/-- Bytes stand for a number below the next power of the base. -/
lemma Numeral.value_binary_lt (xs : List UInt8) : binary.value xs < 256 ^ xs.length := by
  have hlt := Nat.ofDigits_lt_base_pow_length (by decide : 1 < 256) (binary_digit_lt xs)
  rwa [List.length_map] at hlt

/-- The last byte carries the sign. -/
lemma signedValue_append (xs : List UInt8) (x : UInt8) :
    signedValue (xs ++ [x]) =
      Numeral.binary.value xs + ((256 ^ xs.length : Nat) : Int) * x.toInt8.toInt := by
  have hlow := Numeral.value_binary_lt xs
  have hunit : (256 : Int) ^ (xs ++ [x]).length = ((256 ^ xs.length : Nat) : Int) * 256 := by
    rw [List.length_append, List.length_singleton, pow_succ]
    push_cast
    rfl
  rw [signedValue, Numeral.binary_concat, hunit, List.length_append, List.length_singleton, pow_succ,
    toInt_toInt8]
  generalize Numeral.binary.value xs = low at hlow ⊢
  generalize 256 ^ xs.length = unit at hlow ⊢
  by_cases hsign : 128 ≤ x.toNat
  · have hunits : unit * 128 ≤ unit * x.toNat := Nat.mul_le_mul_left unit hsign
    rw [if_pos (by omega), if_pos hsign]
    push_cast
    ring
  · have hunits : unit * x.toNat ≤ unit * 127 := Nat.mul_le_mul_left unit (by omega)
    rw [if_neg (by omega), if_neg hsign]
    push_cast
    ring

/-! ## Chains of sums and of differences -/

namespace Flags.Calculated

variable {f : Flags} {subtracts : Bool} {a b : UInt8} {carry : Bool} {w : UInt8}
  (h : f.Calculated subtracts a b carry w)

include h

/-- The carry stands for the place above the byte. -/
lemma exact : exactValue subtracts a.toNat b.toNat carry =
    exactValue subtracts w.toNat (256 * f.c.toNat) false := by
  have ha := a.toNat_lt
  have hb := b.toNat_lt
  have hcarry := carry.toNat_le
  have hvalue := h.value
  have hout := h.carryOut
  cases subtracts <;> cases hc : f.c <;> simp [hc, exactValue, Leaves] at hvalue hout ⊢ <;> omega

/-- Without overflow, the signed value is exact. -/
lemma signed_exact (hfits : f.p = false) :
    w.toInt8.toInt = exactValue subtracts a.toInt8.toInt b.toInt8.toInt carry := by
  have ha := a.toNat_lt
  have hb := b.toNat_lt
  have hw := w.toNat_lt
  have hvalue := h.value
  have hrange : ¬ Leaves (exactValue subtracts a.toInt8.toInt b.toInt8.toInt carry) (-128) 127 := by
    rw [← h.overflow, hfits]
    exact Bool.false_ne_true
  rw [Leaves, toInt_toInt8, toInt_toInt8] at hrange
  rw [toInt_toInt8, toInt_toInt8, toInt_toInt8]
  cases subtracts <;> simp only [exactValue_false, exactValue_true] at hvalue hrange ⊢ <;>
    split_ifs at hrange ⊢ <;> omega

end Flags.Calculated

/-- Below the last byte there is less than one of its units. -/
lemma leaves_scaled {low unit e : Int} (hlow : 0 ≤ low) (hunit : low < unit) :
    Leaves (low + unit * e) (-(128 * unit)) (128 * unit - 1) ↔ Leaves e (-128) 127 := by
  constructor
  · rintro (h | h)
    · exact Or.inl (by nlinarith)
    · exact Or.inr (by nlinarith)
  · rintro (h | h)
    · exact Or.inl (by nlinarith)
    · exact Or.inr (by nlinarith)

/-- Overflow and sign of the operation on the last bytes are those of the whole number. -/
lemma Flags.Calculated.signed {f : Flags} {subtracts : Bool} {a b : UInt8} {carry : Bool} {w : UInt8}
    (h : f.Calculated subtracts a b carry w) (hshown : f.Describe w w) (low : List UInt8) :
    f.Signed
      (Numeral.binary.value low +
        ((256 ^ low.length : Nat) : Int) * exactValue subtracts a.toInt8.toInt b.toInt8.toInt carry)
      (low ++ [w]) := by
  have hbelow : (Numeral.binary.value low : Int) < ((256 ^ low.length : Nat) : Int) :=
    Int.ofNat_lt.2 (Numeral.value_binary_lt low)
  have hrange : (2 : Int) ^ (8 * (low ++ [w]).length - 1) = 128 * ((256 ^ low.length : Nat) : Int) := by
    have hplaces : 8 * (low ++ [w]).length - 1 = 8 * low.length + 7 := by
      rw [List.length_append, List.length_singleton]
      omega
    rw [hplaces, pow_add, pow_mul, Nat.cast_pow]
    exact mul_comm _ _
  have hsign : f.s = true ↔ w.toInt8.toInt < 0 := by
    have hlt := w.toNat_lt
    rw [hshown.sign, bit_seven, toInt_toInt8, decide_eq_true_eq]
    split <;> omega
  refine ⟨?_, fun hfits => ?_, ?_⟩
  · rw [hrange, leaves_scaled (Int.natCast_nonneg _) hbelow]
    exact h.overflow
  · rw [signedValue_append, h.signed_exact hfits]
  · rw [signedValue_append, hsign]
    refine ⟨fun hnegative => ?_, fun hnegative => ?_⟩
    · nlinarith
    · nlinarith

namespace Calculates

variable {subtracts : Bool} {op : UInt8 → UInt8 → Bool → Result} (h : Calculates subtracts op)

include h

/-- Sums and differences are exact on bytes. -/
lemma exact_binary : Numeral.binary.Exact subtracts op where
  isDigit _ _ _ := trivial
  digit carry _ _ := (h _ _ carry).1.exact

variable {xs ys : List UInt8} (hlength : xs.length = ys.length) (f : Flags)

include hlength

/-- Overflow and sign in the end are those of the numbers. -/
lemma signed_chain (hpos : xs ≠ []) :
    let result := chain (List.zipWith op xs ys) f
    result.2.Signed (exactValue subtracts (signedValue xs) (signedValue ys) f.c) result.1 := by
  obtain ⟨xs, x, rfl⟩ := (List.eq_nil_or_concat' xs).resolve_left hpos
  obtain ⟨ys, y, rfl⟩ : ∃ ys' y, ys = ys' ++ [y] := by
    refine (List.eq_nil_or_concat' ys).resolve_left ?_
    rintro rfl
    simp at hlength
  have hlow : xs.length = ys.length := by simpa using hlength
  set low := chain (List.zipWith op xs ys) f with hlowChain
  obtain ⟨htop, hshown⟩ := h x y low.2.c
  have hresult : chain (List.zipWith op (xs ++ [x]) (ys ++ [y])) f =
      (low.1 ++ [(op x y low.2.c).value], (op x y low.2.c).flags) := by
    rw [List.zipWith_append hlow, chain_append]
    rfl
  have hbytes : low.1.length = xs.length := by
    rw [length_chain, List.length_zipWith, hlow, Nat.min_self]
  -- The exact number is what the lower bytes leave, and the exact number of the last bytes in its units.
  have hexact : exactValue subtracts (signedValue (xs ++ [x])) (signedValue (ys ++ [y])) f.c =
      Numeral.binary.value low.1 + ((256 ^ low.1.length : Nat) : Int) *
        exactValue subtracts x.toInt8.toInt y.toInt8.toInt low.2.c := by
    have hvalue := h.exact_binary.value_chain hlow (fun _ _ => trivial) (fun _ _ => trivial) f
    have hunit : (Numeral.binary.base : Int) ^ xs.length = ((256 ^ xs.length : Nat) : Int) :=
      (Nat.cast_pow 256 xs.length).symm
    rw [hunit, ← hlowChain] at hvalue
    rw [signedValue_append, signedValue_append, ← hlow, hbytes]
    cases subtracts with
    | false =>
      simp only [exactValue_false, Bool.toNat_false] at hvalue ⊢
      linear_combination hvalue
    | true =>
      simp only [exactValue_true, Bool.toNat_false] at hvalue ⊢
      linear_combination hvalue
  rw [hresult, hexact]
  exact htop.signed hshown low.1

end Calculates

/-! ## Words -/

/-- The result on words is that of a chain of two bytes, except that zero describes the whole word. -/
structure PairResult.OfBytes (r : PairResult) (bytes : List UInt8 × Flags) : Prop where
  /-- The bytes are those of the word, the low one first. -/
  value : bytes.1 = [low r.value, high r.value]
  /-- All flags but one are left by the operation on the high bytes. -/
  flags : r.flags = { bytes.2 with z := r.value == 0 }

namespace Arithmetic

variable (a b : UInt16) (f : Flags)

/-- The sum of the low bytes, with its carry, is taken over by the sum of the high bytes. -/
lemma addPairCarry_ofBytes : (addPairCarry a b f.c).OfBytes
    (chain (List.zipWith add [low a, high a] [low b, high b]) f) := by
  have ha := a.toNat_lt
  have hb := b.toNat_lt
  have hcarry := f.c.toNat_le
  set r := addPairCarry a b f.c
  set first := add (low a) (low b) f.c with hfirst
  set second := add (high a) (high b) first.flags.c with hsecond
  have hbetween : first.flags.c.toNat = (a.toNat % 256 + b.toNat % 256 + f.c.toNat) / 256 := by
    simp only [hfirst, add, toNat_low]
    by_cases hout : 255 < a.toNat % 256 + b.toNat % 256 + f.c.toNat <;> simp [hout] <;> omega
  have hlow : first.value = low r.value := by
    apply UInt8.toNat_inj.1
    simp only [hfirst, add, r, addPairCarry, toNat_low, UInt8.toNat_ofNat', UInt16.toNat_ofNat']
    omega
  have hhigh : second.value = high r.value := by
    apply UInt8.toNat_inj.1
    simp only [hsecond, add, r, addPairCarry, toNat_high, hbetween, UInt8.toNat_ofNat', UInt16.toNat_ofNat']
    omega
  have hhalf : second.flags.h = r.flags.h := by
    simp only [hsecond, add, r, addPairCarry, toNat_high, hbetween, decide_eq_decide]
    omega
  have hout : second.flags.c = r.flags.c := by
    simp only [hsecond, add, r, addPairCarry, toNat_high, hbetween, decide_eq_decide]
    omega
  refine ⟨?_, ?_⟩
  · show [first.value, second.value] = _
    rw [hlow, hhigh]
  · show ({ Flags.ofValue (high r.value) with
        z := r.value == 0
        h := r.flags.h
        p := bit (high a) 7 == bit (high b) 7 && bit (high r.value) 7 != bit (high a) 7
        c := r.flags.c } : Flags) = _
    rw [← hhigh, ← hhalf, ← hout]
    rfl

/-- The difference of the low bytes, with its borrow, is taken over by the difference of the high bytes. -/
lemma subPairCarry_ofBytes : (subPairCarry a b f.c).OfBytes
    (chain (List.zipWith sub [low a, high a] [low b, high b]) f) := by
  have ha := a.toNat_lt
  have hb := b.toNat_lt
  have hcarry := f.c.toNat_le
  have hborrow : ∀ c : Bool, c.toUInt8.toNat = c.toNat ∧ c.toUInt16.toNat = c.toNat := by decide
  set r := subPairCarry a b f.c
  set first := sub (low a) (low b) f.c with hfirst
  set second := sub (high a) (high b) first.flags.c with hsecond
  have hbetween : first.flags.c.toNat = if a.toNat % 256 < b.toNat % 256 + f.c.toNat then 1 else 0 := by
    simp only [hfirst, sub, toNat_low]
    split <;> simp [*]
  have hlow : first.value = low r.value := by
    apply UInt8.toNat_inj.1
    simp only [hfirst, sub, r, subPairCarry, toNat_low, UInt8.toNat_sub, UInt16.toNat_sub, hborrow]
    omega
  have hhigh : second.value = high r.value := by
    apply UInt8.toNat_inj.1
    simp only [hsecond, sub, r, subPairCarry, toNat_high, hbetween, UInt8.toNat_sub, UInt16.toNat_sub, hborrow]
    split <;> omega
  have hhalf : second.flags.h = r.flags.h := by
    simp only [hsecond, sub, r, subPairCarry, toNat_high, hbetween, decide_eq_decide]
    split <;> omega
  have hout : second.flags.c = r.flags.c := by
    simp only [hsecond, sub, r, subPairCarry, toNat_high, hbetween, decide_eq_decide]
    split <;> omega
  refine ⟨?_, ?_⟩
  · show [first.value, second.value] = _
    rw [hlow, hhigh]
  · show ({ Flags.ofValue (high r.value) with
        z := r.value == 0
        h := r.flags.h
        p := bit (high a) 7 != bit (high b) 7 && bit (high r.value) 7 != bit (high a) 7
        n := true
        c := r.flags.c } : Flags) = _
    rw [← hhigh, ← hhalf, ← hout]
    rfl

/-- The sum without a carry keeps three flags and has the others of the sum with a carry that is clear. -/
lemma addPair_eq : addPair a b f =
    { value := (addPairCarry a b false).value
      flags := { (addPairCarry a b false).flags with s := f.s, z := f.z, p := f.p } } := rfl

end Arithmetic

/-! ## The law -/

namespace Arithmetic

open Numeral

/-- **Arithmetic of any width.**  A chain of sums of bytes through the carry is the sum of the numbers that
they stand for, with the last carry as the place after the last byte, and a chain of differences is their
difference, with the last borrow as that place.  Overflow says that the signed result does not fit into the
bytes, and the sign is that of the signed number which they stand for then.  The operations on words leave
the bytes and the flags of such a chain of two, except that zero describes the whole word; the sum without
a carry also keeps sign, zero and parity.  The instructions that add a pair to HL or to an index register,
and those that add or subtract a pair and the carry, do this and nothing else. -/
theorem chains_exact {xs ys : List UInt8} (hlength : xs.length = ys.length) (hpos : xs ≠ []) (f : Flags) :
    let n := xs.length
    let sum := chain (List.zipWith add xs ys) f
    let difference := chain (List.zipWith sub xs ys) f
    (sum.1.length = n ∧
      binary.value sum.1 + sum.2.c.toNat * 256 ^ n =
        binary.value xs + binary.value ys + f.c.toNat ∧
      sum.2.Signed (signedValue xs + signedValue ys + f.c.toNat) sum.1) ∧
    (difference.1.length = n ∧
      (binary.value difference.1 : Int) - difference.2.c.toNat * 256 ^ n =
        binary.value xs - binary.value ys - f.c.toNat ∧
      difference.2.Signed (signedValue xs - signedValue ys - f.c.toNat) difference.1) ∧
    (∀ a b : UInt16,
      (addPairCarry a b f.c).OfBytes (chain (List.zipWith add [low a, high a] [low b, high b]) f) ∧
      (subPairCarry a b f.c).OfBytes (chain (List.zipWith sub [low a, high a] [low b, high b]) f) ∧
      let bytes := chain (List.zipWith add [low a, high a] [low b, high b]) { f with c := false }
      let result := addPair a b f
      bytes.1 = [low result.value, high result.value] ∧
      result.flags = { bytes.2 with s := f.s, z := f.z, p := f.p } ∧ result.flags.n = false) ∧
    (∀ (β : Type) [Bus β] (p : Processor) (bus : β) (op : UInt8), p.Ready →
      let k := p.registers
      let after := (p.step bus).processor.registers
      (∀ x : Option Index, OpcodeAt bus k.pc x op → op &&& 0xCF = 0x09 →
        let target := pairHL x
        let result := addPair (k.pair target) (k.pair (namedPair x op)) k.f
        let fetched := k.passed (UInt8.ofNat (shortLength x)) (UInt16.ofNat (shortLength x))
        after = { fetched.setPair target result.value with
          f := result.flags, wz := k.pair target + 1 } ∧ (p.step bus).bus = bus) ∧
      (MemoryBus.peek bus k.pc = 0xED → MemoryBus.peek bus (k.pc + 1) = op →
        op &&& 0xCF = 0x4A ∨ op &&& 0xCF = 0x42 →
          let source := k.pair (namedPair none op)
          let result := if op &&& 0xCF = 0x4A then addPairCarry k.hl source k.f.c
            else subPairCarry k.hl source k.f.c
          after = { (k.passed 2 2).setHL result.value with f := result.flags, wz := k.hl + 1 } ∧
          (p.step bus).bus = bus)) := by
  intro n sum difference
  have hbyte : ∀ zs : List UInt8, ∀ z ∈ zs, binary.IsDigit z := fun _ _ _ => trivial
  obtain ⟨haddLength, haddValue⟩ :=
    calculates_add.exact_binary.sum_chain hlength (hbyte xs) (hbyte ys) f
  obtain ⟨hsubLength, hsubValue⟩ :=
    calculates_sub.exact_binary.difference_chain hlength (hbyte xs) (hbyte ys) f
  refine ⟨⟨haddLength, haddValue, calculates_add.signed_chain hlength f hpos⟩,
    ⟨hsubLength, hsubValue, calculates_sub.signed_chain hlength f hpos⟩,
    fun a b => ⟨?_, ?_, ?_, ?_, rfl⟩, ?_⟩
  · exact addPairCarry_ofBytes a b f
  · exact subPairCarry_ofBytes a b f
  · exact (addPairCarry_ofBytes a b { f with c := false }).value
  · rw [addPair_eq, (addPairCarry_ofBytes a b { f with c := false }).flags]
  · intro β _ p bus op h k after
    exact ⟨fun x => step_of_addPair h, step_of_pairCarry h⟩

/-- The largest signed number of two bytes overflows when a carry is added, and an index register counts past
it as well. -/
theorem chains_exact_overflow :
    let xs : List UInt8 := [0xFF, 0x7F]
    let ys : List UInt8 := [0x00, 0x00]
    let f := Flags.ofByte 0x01
    let sum := chain (List.zipWith add xs ys) f
    let registers : Registers := { Registers.powerOn with ix := 0x7FFF, c := 0x01 }
    let p : Processor := { registers }
    let bus : Board := { memory := (Memory.zero.write 0 0xDD).write 1 0x09 }
    xs.length = ys.length ∧ xs ≠ [] ∧ sum = ([0x00, 0x80], Flags.ofByte 0x94) ∧
      binary.value sum.1 + sum.2.c.toNat * 256 ^ 2 = 32768 ∧ sum.2.Signed 32768 sum.1 ∧
      p.Ready ∧ OpcodeAt bus 0 (some .ix) 0x09 ∧
      (p.step bus).processor.registers =
        { registers with ix := 0x8000, f := Flags.ofByte 0xD4, pc := 2, r := 2, wz := 0x8000 } := by
  intro xs ys f sum registers p bus
  have hlength : xs.length = ys.length := rfl
  have hpos : xs ≠ [] := List.cons_ne_nil _ _
  have hready : p.Ready := ⟨rfl, rfl⟩
  have hfound : OpcodeAt bus 0 (some .ix) 0x09 := by
    refine ⟨?_, ?_⟩ <;> decide +kernel
  obtain ⟨⟨-, hvalue, hsigned⟩, -, -, hstep⟩ := chains_exact hlength hpos f
  obtain ⟨hadd, -⟩ := hstep Board p bus 0x09 hready
  have hexact : signedValue xs + signedValue ys + f.c.toNat = 32768 := by decide +kernel
  rw [hexact] at hsigned
  have hresult : binary.value xs + binary.value ys + f.c.toNat = 32768 := by decide +kernel
  refine ⟨hlength, hpos, by decide +kernel, hvalue.trans hresult, hsigned, hready, hfound, ?_⟩
  rw [(hadd (some .ix) hfound (by decide)).1]
  decide +kernel

end Arithmetic

end Z80

import Z80.Proofs.Grid
import Z80.Proofs.WideArithmetic

/-!
# Shifts of any width

A number of several bytes is shifted by one place byte by byte: to the left from its lowest byte upwards,
to the right from its highest byte downwards.  The first shift decides what enters the number, and every
other one takes in through the carry what the one before it let out.

Shifts through the carry lose nothing, in either direction, and their chains satisfy one equation each
(`value_shiftLeft`, `value_shiftRight`).  A first shift of another kind is a shift through a carry of its own
choice, so the other chains are instances of these two (`chain_first`).
-/

namespace Z80

open Numeral

/-! ## Single bytes -/

/-- A shift to the left through the carry loses no bit. -/
lemma Shift.throughLeft_exact (v : UInt8) (carry : Bool) :
    let result := throughLeft.apply v carry
    2 * v.toNat + carry.toNat = result.value.toNat + 256 * result.flags.c.toNat := by
  revert v
  refine forall_byte ?_
  cases carry <;> decide +kernel

/-- A shift to the right through the carry loses no bit. -/
lemma Shift.throughRight_exact (v : UInt8) (carry : Bool) :
    let result := throughRight.apply v carry
    v.toNat + 256 * carry.toNat = 2 * result.value.toNat + result.flags.c.toNat := by
  revert v
  refine forall_byte ?_
  cases carry <;> decide +kernel

/-! ## Chains -/

/-- One shift of the first byte, and another one of every byte after it. -/
def shiftOps (first next : Shift) : List UInt8 → List (Bool → Result)
  | [] => []
  | x :: xs => first.apply x :: xs.map next.apply

/-- A number is shifted to the left, from its lowest byte upwards. -/
def shiftLeft (first : Shift) (xs : List UInt8) (f : Flags) : List UInt8 × Flags :=
  chain (shiftOps first .throughLeft xs) f

/-- A number is shifted to the right, from its highest byte downwards. -/
def shiftRight (first : Shift) (xs : List UInt8) (f : Flags) : List UInt8 × Flags :=
  let result := chain (shiftOps first .throughRight xs.reverse) f
  (result.1.reverse, result.2)

section Chain

variable (first next : Shift) (xs : List UInt8) (f : Flags)

/-- A first shift that does not differ from the others. -/
lemma shiftOps_self : shiftOps next next xs = xs.map next.apply := by
  cases xs <;> rfl

@[simp] lemma length_shiftOps : (shiftOps first next xs).length = xs.length := by
  cases xs <;> simp [shiftOps]

lemma length_shiftLeft : (shiftLeft first xs f).1.length = xs.length := by
  simp [shiftLeft]

lemma length_shiftRight : (shiftRight first xs f).1.length = xs.length := by
  simp [shiftRight]

variable {first next}

/-- A first shift that does on its byte what the others do with another carry. -/
lemma chain_first {x : UInt8} {carry : Bool} (h : first.apply x f.c = next.apply x carry) :
    chain (shiftOps first next (x :: xs)) f =
      chain (shiftOps next next (x :: xs)) { f with c := carry } := by
  rw [shiftOps, shiftOps, chain, chain, h]

/-- To the left, the first shift decides what enters at the lowest bit. -/
lemma shiftLeft_first {xs : List UInt8} (hpos : xs ≠ []) (carry : Bool)
    (h : ∀ x, first.apply x f.c = Shift.throughLeft.apply x carry) :
    shiftLeft first xs f = shiftLeft .throughLeft xs { f with c := carry } := by
  obtain ⟨x, xs, rfl⟩ := List.exists_cons_of_ne_nil hpos
  exact chain_first xs f (h x)

/-- To the right, the first shift decides what enters at the highest bit. -/
lemma shiftRight_first {xs : List UInt8} (hpos : xs ≠ []) (carry : Bool)
    (h : first.apply (xs.getLast hpos) f.c = Shift.throughRight.apply (xs.getLast hpos) carry) :
    shiftRight first xs f = shiftRight .throughRight xs { f with c := carry } := by
  have hreverse : xs.reverse = xs.getLast hpos :: xs.dropLast.reverse := by
    conv_lhs => rw [← List.dropLast_append_getLast hpos]
    exact List.reverse_concat
  rw [shiftRight, shiftRight, hreverse, chain_first _ f h]

variable (x : UInt8)

/-- To the left, the lowest byte is shifted first. -/
lemma shiftLeft_cons :
    let lowest := Shift.throughLeft.apply x f.c
    let rest := shiftLeft .throughLeft xs lowest.flags
    shiftLeft .throughLeft (x :: xs) f = (lowest.value :: rest.1, rest.2) := by
  intro lowest rest
  have hrest : rest = chain (xs.map Shift.throughLeft.apply) lowest.flags := by
    rw [← shiftOps_self]
    rfl
  rw [hrest]
  rfl

/-- To the right, the highest byte is shifted first. -/
lemma shiftRight_append :
    let highest := Shift.throughRight.apply x f.c
    let rest := shiftRight .throughRight xs highest.flags
    shiftRight .throughRight (xs ++ [x]) f = (rest.1 ++ [highest.value], rest.2) := by
  intro highest rest
  have hreverse : (xs ++ [x]).reverse = x :: xs.reverse := List.reverse_concat
  rw [shiftRight, hreverse, shiftOps_self, List.map_cons, chain, ← shiftOps_self]
  exact Prod.ext List.reverse_cons rfl

/-- To the left through the carry, no bit is lost. -/
lemma value_shiftLeft :
    let result := shiftLeft .throughLeft xs f
    binary.value result.1 + 256 ^ xs.length * result.2.c.toNat = 2 * binary.value xs + f.c.toNat := by
  induction xs generalizing f with
  | nil => simp [shiftLeft, shiftOps, chain]
  | cons x xs ih =>
    have hlowest := Shift.throughLeft_exact x f.c
    have hrest := ih (Shift.throughLeft.apply x f.c).flags
    simp only [shiftLeft_cons, binary_cons, List.length_cons, pow_succ]
    linear_combination 256 * hrest - hlowest

/-- To the right through the carry, no bit is lost. -/
lemma value_shiftRight :
    let result := shiftRight .throughRight xs f
    2 * binary.value result.1 + result.2.c.toNat = binary.value xs + 256 ^ xs.length * f.c.toNat := by
  induction xs using List.reverseRecOn generalizing f with
  | nil => simp [shiftRight, shiftOps, chain]
  | append_singleton xs x ih =>
    have hhighest := Shift.throughRight_exact x f.c
    have hrest := ih (Shift.throughRight.apply x f.c).flags
    simp only [shiftRight_append, binary_concat, List.length_append, List.length_singleton,
      length_shiftRight, pow_succ]
    linear_combination hrest - 256 ^ xs.length * hhighest

end Chain

/-! ## Numbers in binary -/

/-- The highest bit says whether a number is in the upper half of its range. -/
lemma bit_getLast {xs : List UInt8} (hpos : xs ≠ []) :
    bit (xs.getLast hpos) 7 = decide (256 ^ xs.length ≤ 2 * binary.value xs) := by
  obtain ⟨xs, x, rfl⟩ := (List.eq_nil_or_concat' xs).resolve_left hpos
  have hlow := value_binary_lt xs
  rw [List.getLast_append_singleton, bit_seven, decide_eq_decide, binary_concat, List.length_append,
    List.length_singleton, pow_succ]
  constructor
  · intro hsign
    have := Nat.mul_le_mul_left (256 ^ xs.length) hsign
    omega
  · intro hupper
    by_contra hsign
    have := Nat.mul_le_mul_left (256 ^ xs.length) (show x.toNat ≤ 127 by omega)
    omega

/-- A number is written in one way only. -/
lemma Numeral.binary_injective {xs ys : List UInt8} (hlength : xs.length = ys.length)
    (h : binary.value xs = binary.value ys) : xs = ys := by
  have hmap : xs.map UInt8.toNat = ys.map UInt8.toNat :=
    Nat.ofDigits_inj_of_len_eq (by decide : 1 < 256) (by simpa using hlength) (binary_digit_lt xs)
      (binary_digit_lt ys) h
  exact List.map_injective_iff.2 (fun _ _ => UInt8.toNat_inj.1) hmap

section Width

variable {xs : List UInt8} (hpos : xs ≠ []) (f : Flags)

include hpos

/-- The range of a number of several bytes has two halves. -/
lemma two_dvd_range : 2 ∣ 256 ^ xs.length :=
  dvd_pow (by decide) (List.length_pos_iff.2 hpos).ne'

/-- A shift to the left is twice the number, and what enters at the lowest bit; the highest bit leaves. -/
lemma shiftLeft_exact (first : Shift) (carry : Bool)
    (h : ∀ x, first.apply x f.c = Shift.throughLeft.apply x carry) :
    let result := shiftLeft first xs f
    result.1.length = xs.length ∧
      binary.value result.1 = (2 * binary.value xs + carry.toNat) % 256 ^ xs.length ∧
      result.2.c = bit (xs.getLast hpos) 7 := by
  intro result
  have hlength : result.1.length = xs.length := length_shiftLeft first xs f
  have hvalue : binary.value result.1 + 256 ^ xs.length * result.2.c.toNat =
      2 * binary.value xs + carry.toNat := by
    rw [show result = _ from shiftLeft_first f hpos carry h]
    exact value_shiftLeft xs { f with c := carry }
  have hlt := value_binary_lt result.1
  rw [hlength] at hlt
  refine ⟨hlength, ?_, ?_⟩
  · rw [← hvalue, Nat.add_mul_mod_self_left, Nat.mod_eq_of_lt hlt]
  · obtain ⟨half, hhalf⟩ := two_dvd_range hpos
    have hcarry := carry.toNat_le
    rw [bit_getLast hpos, hhalf]
    rw [hhalf] at hvalue hlt
    generalize result.2.c = out at hvalue ⊢
    cases out with
    | false =>
      rw [Bool.toNat_false] at hvalue
      exact (decide_eq_false (by omega)).symm
    | true =>
      rw [Bool.toNat_true] at hvalue
      exact (decide_eq_true (by omega)).symm

/-- A logical shift to the right is half of the number, and the remainder leaves. -/
lemma shiftRight_logical :
    let result := shiftRight .logicalRight xs f
    binary.value result.1 = binary.value xs / 2 ∧ result.2.c.toNat = binary.value xs % 2 := by
  intro result
  have hvalue : 2 * binary.value result.1 + result.2.c.toNat = binary.value xs := by
    rw [show result = _ from shiftRight_first f hpos false rfl]
    exact value_shiftRight xs { f with c := false }
  have hout := result.2.c.toNat_le
  omega

/-- An arithmetic shift to the right is half of the signed number, rounded down, and the remainder leaves. -/
lemma shiftRight_arithmetic :
    let result := shiftRight .arithmeticRight xs f
    signedValue result.1 = signedValue xs / 2 ∧ result.2.c.toNat = binary.value xs % 2 := by
  intro result
  have hlength : result.1.length = xs.length := length_shiftRight _ xs f
  obtain ⟨half, hhalf⟩ := two_dvd_range hpos
  have hvalue : 2 * binary.value result.1 + result.2.c.toNat =
      binary.value xs + 2 * half * (decide (2 * half ≤ 2 * binary.value xs)).toNat := by
    rw [← hhalf, ← bit_getLast hpos, show result = _ from shiftRight_first f hpos _ rfl]
    exact value_shiftRight xs { f with c := bit (xs.getLast hpos) 7 }
  have hout := result.2.c.toNat_le
  have hlt := value_binary_lt xs
  have hrange : (256 : Int) ^ xs.length = 2 * half := by
    exact_mod_cast hhalf
  rw [signedValue, signedValue, hlength, hrange, hhalf]
  rw [hhalf] at hlt
  by_cases hsign : 2 * half ≤ 2 * binary.value xs
  · simp only [hsign, decide_true, Bool.toNat_true, if_true] at hvalue ⊢
    rw [if_pos (by omega)]
    omega
  · simp only [hsign, decide_false, Bool.toNat_false, if_false] at hvalue ⊢
    rw [if_neg (by omega)]
    omega

end Width

/-- A shift to the left through the carry is undone by one to the right. -/
lemma shiftRight_shiftLeft (xs : List UInt8) (f g : Flags) :
    let result := shiftLeft .throughLeft xs f
    g.c = result.2.c → let back := shiftRight .throughRight result.1 g
      back.1 = xs ∧ back.2.c = f.c := by
  intro result hcarry back
  have hforth := value_shiftLeft xs f
  have hlength : result.1.length = xs.length := length_shiftLeft _ xs f
  have hback : 2 * binary.value back.1 + back.2.c.toNat = 2 * binary.value xs + f.c.toNat := by
    rw [← hforth, ← hcarry, ← hlength]
    exact value_shiftRight result.1 g
  have hout := f.c.toNat_le
  have hin := back.2.c.toNat_le
  refine ⟨binary_injective ((length_shiftRight _ _ g).trans hlength) (by omega), ?_⟩
  have hsame : ∀ out carry : Bool, out.toNat = carry.toNat → out = carry := by decide
  exact hsame _ _ (by omega)

/-! ## Instructions -/

/-- The shift that three bits of an opcode name. -/
def namedShift (code : UInt8) : Shift :=
  match code with
  | 0 => .rotateLeft
  | 1 => .rotateRight
  | 2 => .throughLeft
  | 3 => .throughRight
  | 4 => .arithmeticLeft
  | 5 => .arithmeticRight
  | 6 => .onesLeft
  | _ => .logicalRight

/-- The opcodes of shifts stand for what they name. -/
lemma bits_of_shift (op : UInt8) (h : op < 0x40) :
    Page.bits.operation op = .shift (namedShift (op / 8)) (namedOperand (op % 8)) none ∧
      (namedOperand (op % 8)).isIndexed = false ∧
      (Page.bits.operation op).duration = if op % 8 = 6 then 11 else 4 := by
  revert op
  exact forall_byte (by decide +kernel)

/-- The step of an instruction that shifts a register or the memory at HL. -/
lemma step_of_shift {β : Type} [Bus β] {p : Processor} (h : p.Ready) {bus : β} {op : UInt8}
    (hfirst : MemoryBus.peek bus p.registers.pc = 0xCB)
    (hsecond : MemoryBus.peek bus (p.registers.pc + 1) = op) (hop : op < 0x40) :
    let k := p.registers
    let source := k.named (op % 8) bus
    let result := (namedShift (op / 8)).apply source.1 k.f.c
    let target := { k with f := result.flags }.copied (op % 8) result.value source.2
    p.step bus = p.stepTo (target.1.passed 2 2) target.2 (if op % 8 = 6 then 15 else 8) := by
  intro k source result target
  obtain ⟨hoperation, hplain, htime⟩ := bits_of_shift op hop
  set o := namedOperand (op % 8)
  set i : Instruction := { page := .bits, opcode := op }
  have hshift : i.operation = .shift (namedShift (op / 8)) o none := hoperation
  have hi : decodeAt bus k.pc = i := by
    have hcode : MemoryBus.codeAt bus k.pc 0 = 0xCB := (MemoryBus.codeAt_first bus k.pc).trans hfirst
    have hopcode : MemoryBus.codeAt bus k.pc 1 = op := hsecond
    have hindexed : (Page.bits.operation (MemoryBus.codeAt bus k.pc 1)).isIndexed = false := by
      rw [hopcode, hoperation]
      exact hplain
    rw [decodeAt, decode_bits hcode, decodeFrom_of_plain .bits _ 1 hindexed, hopcode, hoperation]
    rfl
  have hindexed : i.isIndexed = false := (congrArg Operation.isIndexed hshift).trans hplain
  have hlength : i.length = 2 := by
    rw [Instruction.length, hindexed, hshift]
    rfl
  have hduration : i.duration = if op % 8 = 6 then 15 else 8 := by
    rw [Instruction.duration, show i.operation.duration = _ from htime]
    split <;> rfl
  set effect := o.write 0 { k with f := result.flags } result.value with heffect
  have hrun : (i.operation.plan i.displacement i.immediate k).run bus =
      (effect, effect.store.run source.2) := by
    rw [hshift, Operation.plan, Operand.run_read, readFrom_namedOperand]
    rfl
  have htarget : (effect.registers, effect.store.run source.2) = target :=
    write_namedOperand (op % 8) 0 { k with f := result.flags } result.value source.2
  rw [Processor.step_of_onBytes_plain h hi (congrArg Operation.onBytes hshift) hindexed, hrun, hlength,
    hduration, ← htarget]
  rfl

/-! ## The law -/

/-- **Shifts of any width.**  A chain of shifts to the left through the carry, from the lowest byte upwards,
is twice the number and the carry, with the last carry as the place after the last byte; shifts to the right
through the carry that are started with it restore the number and the first carry.  If the first shift takes
in a clear or a set bit instead, the result is twice the number, or one more, as far as the bytes reach, and
the highest bit leaves.  To the right, a clear bit gives half of the number, and the sign half of the signed
number, rounded down; the lowest bit leaves.  Each shift is the effect of an instruction on a register or on
the memory at HL, which takes the carry from the flags and leaves it there. -/
theorem Arithmetic.shifts_exact {xs : List UInt8} (hpos : xs ≠ []) (f : Flags) :
    let n := xs.length
    let number := binary.value xs
    let zero := shiftLeft .arithmeticLeft xs f
    let one := shiftLeft .onesLeft xs f
    let through := shiftLeft .throughLeft xs f
    let logical := shiftRight .logicalRight xs f
    let arithmetic := shiftRight .arithmeticRight xs f
    (zero.1.length = n ∧ binary.value zero.1 = 2 * number % 256 ^ n ∧
      zero.2.c = bit (xs.getLast hpos) 7) ∧
    (one.1.length = n ∧ binary.value one.1 = (2 * number + 1) % 256 ^ n ∧
      one.2.c = bit (xs.getLast hpos) 7) ∧
    (logical.1.length = n ∧ binary.value logical.1 = number / 2 ∧ logical.2.c.toNat = number % 2) ∧
    (arithmetic.1.length = n ∧ signedValue arithmetic.1 = signedValue xs / 2 ∧
      arithmetic.2.c.toNat = number % 2) ∧
    (through.1.length = n ∧
      binary.value through.1 + through.2.c.toNat * 256 ^ n = 2 * number + f.c.toNat ∧
      ∀ g : Flags, g.c = through.2.c →
        let back := shiftRight .throughRight through.1 g
        back.1 = xs ∧ back.2.c = f.c) ∧
    (∀ (β : Type) [Bus β] (p : Processor) (bus : β) (op : UInt8), p.Ready →
      let k := p.registers
      MemoryBus.peek bus k.pc = 0xCB → MemoryBus.peek bus (k.pc + 1) = op → op < 0x40 →
        let source := k.named (op % 8) bus
        let result := (namedShift (op / 8)).apply source.1 k.f.c
        let target := { k with f := result.flags }.copied (op % 8) result.value source.2
        p.step bus = p.stepTo (target.1.passed 2 2) target.2 (if op % 8 = 6 then 15 else 8)) := by
  intro n number zero one through logical arithmetic
  refine ⟨?_, ?_, ⟨?_, ?_⟩, ⟨?_, ?_⟩, ⟨?_, ?_, ?_⟩, ?_⟩
  · exact shiftLeft_exact hpos f .arithmeticLeft false fun _ => rfl
  · exact shiftLeft_exact hpos f .onesLeft true fun _ => rfl
  · exact length_shiftRight _ xs f
  · exact shiftRight_logical hpos f
  · exact length_shiftRight _ xs f
  · exact shiftRight_arithmetic hpos f
  · exact length_shiftLeft _ xs f
  · rw [Nat.mul_comm]
    exact value_shiftLeft xs f
  · exact shiftRight_shiftLeft xs f
  · intro β _ p bus op h k hfirst hsecond hop
    exact step_of_shift h hfirst hsecond hop

/-- A negative number of two bytes, whose halves and doubles leave bits on both sides. -/
theorem Arithmetic.shifts_exact_negative :
    let xs : List UInt8 := [0x35, 0x92]
    let f := Flags.ofByte 0x01
    let through := shiftLeft .throughLeft xs f
    let arithmetic := shiftRight .arithmeticRight xs f
    let registers : Registers := { Registers.powerOn with f, h := 0x12, l := 0x34 }
    let p : Processor := { registers }
    let bus : Board := { memory := ((Memory.zero.write 0 0xCB).write 1 0x16).write 0x1234 0x92 }
    xs ≠ [] ∧ through = ([0x6B, 0x24], Flags.ofByte 0x25) ∧
      binary.value through.1 + through.2.c.toNat * 256 ^ 2 = 2 * 0x9235 + 1 ∧
      (shiftRight .throughRight through.1 through.2).1 = xs ∧
      signedValue xs = -28107 ∧ signedValue arithmetic.1 = -14054 ∧ arithmetic.2.c = true ∧
      p.Ready ∧ (p.step bus).bus.memory.read 0x1234 = 0x25 ∧ (p.step bus).duration = 15 := by
  intro xs f through arithmetic registers p bus
  have hpos : xs ≠ [] := List.cons_ne_nil _ _
  have hready : p.Ready := ⟨rfl, rfl⟩
  have hfirst : MemoryBus.peek bus p.registers.pc = 0xCB := by decide +kernel
  have hsecond : MemoryBus.peek bus (p.registers.pc + 1) = 0x16 := by decide +kernel
  obtain ⟨-, -, -, ⟨-, hhalf, -⟩, ⟨-, hdouble, hback⟩, hstep⟩ := shifts_exact hpos f
  have hsigned : signedValue xs = -28107 := by decide +kernel
  have hnumber : 2 * binary.value xs + f.c.toNat = 2 * 0x9235 + 1 := by decide +kernel
  refine ⟨hpos, by decide +kernel, hdouble.trans hnumber, (hback _ rfl).1, hsigned, ?_, by decide +kernel,
    hready, ?_, ?_⟩
  · rw [hhalf, hsigned]
    decide
  · rw [hstep Board p bus 0x16 hready hfirst hsecond (by decide)]
    decide +kernel
  · rw [hstep Board p bus 0x16 hready hfirst hsecond (by decide)]
    rfl

end Z80

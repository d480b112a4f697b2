import Z80.Proofs.CarryChain
import Z80.Proofs.Grid

/-!
# Packed decimal arithmetic of any length

A byte can hold two decimal digits, one in each half.  A sum or a difference of such bytes is binary, and
the decimal adjustment that comes behind it brings it back to digits: six is added to, or taken from, a half
whose exact result is no digit, and the flags that the operation left tell which halves these are
(`lowNeedsCorrection_iff`, `highNeedsCorrection_iff`).  The carry that the adjustment leaves stands for the
next two digits, so that adjusted sums and differences are exact to base 100 (`exact_adjusted`), and chains
of them are exact on numbers of any length.

`DecimalStage` is one stage of such a chain as a program has it, two instructions that are executed one after
the other.  A program may do anything between the stages, fetch the next bytes and store the last ones, as
long as the carry goes through.
-/

namespace Z80

/-- Each half of a byte holds a decimal digit, the higher one in the upper half. -/
def Numeral.packed : Numeral where
  base := 100
  IsDigit v := v.toNat / 16 ≤ 9 ∧ v.toNat % 16 ≤ 9
  digit v := 10 * (v.toNat / 16) + v.toNat % 16

instance : DecidablePred Numeral.packed.IsDigit :=
  fun v => inferInstanceAs (Decidable (v.toNat / 16 ≤ 9 ∧ v.toNat % 16 ≤ 9))

namespace Arithmetic

/-- The sum of two bytes and a carry, or their difference. -/
def calculate (subtracts : Bool) : UInt8 → UInt8 → Bool → Result :=
  if subtracts = true then sub else add

/-- An operation on bytes whose result is adjusted to decimal digits. -/
def adjusted (op : UInt8 → UInt8 → Bool → Result) (a b : UInt8) (carry : Bool) : Result :=
  decimalAdjust (op a b carry).value (op a b carry).flags

/-- The amount of the adjustment. -/
lemma toNat_correction (a : UInt8) (f : Flags) :
    (correction a f).toNat =
      6 * (lowNeedsCorrection a f).toNat + 96 * (highNeedsCorrection a f).toNat := by
  simp only [correction]
  cases lowNeedsCorrection a f <;> cases highNeedsCorrection a f <;> rfl

section Adjustment

variable {subtracts : Bool} {x y : UInt8} {carry : Bool} {f : Flags} {v : UInt8}
  (h : f.Calculated subtracts x y carry v) (hx : Numeral.packed.IsDigit x) (hy : Numeral.packed.IsDigit y)

include h hx hy

/-- The low half is corrected if the exact result of the low digits is no digit. -/
lemma lowNeedsCorrection_iff : lowNeedsCorrection v f = true ↔
    Leaves (exactValue subtracts (x.toNat % 16) (y.toNat % 16) carry) 0 9 := by
  have hvalue := h.value
  obtain ⟨-, hxlow⟩ := hx
  obtain ⟨-, hylow⟩ := hy
  have hcarry := carry.toNat_le
  rw [lowNeedsCorrection, Bool.or_eq_true, h.halfCarry, decide_eq_true_eq, Leaves, Leaves]
  cases subtracts <;> simp only [exactValue_false, exactValue_true] at hvalue ⊢ <;> omega

/-- The high half is corrected if the exact result leaves the range of packed digits, which ends at 0x99. -/
lemma highNeedsCorrection_iff : highNeedsCorrection v f = true ↔
    Leaves (exactValue subtracts x.toNat y.toNat carry) 0 153 := by
  have hvalue := h.value
  obtain ⟨hxhigh, hxlow⟩ := hx
  obtain ⟨hyhigh, hylow⟩ := hy
  have hcarry := carry.toNat_le
  rw [highNeedsCorrection, Bool.or_eq_true, h.carryOut, decide_eq_true_eq, Leaves, Leaves]
  cases subtracts <;> simp only [exactValue_false, exactValue_true] at hvalue ⊢ <;> omega

/-- The adjustment brings a result back to decimal digits, with its carry as the next place. -/
lemma decimalAdjust_exact :
    let w := (decimalAdjust v f).value
    Numeral.packed.IsDigit w ∧
      exactValue subtracts (Numeral.packed.digit x) (Numeral.packed.digit y) carry =
        exactValue subtracts (Numeral.packed.digit w) (100 * (decimalAdjust v f).flags.c.toNat) false := by
  intro w
  have hlow := lowNeedsCorrection_iff h hx hy
  have hhigh := highNeedsCorrection_iff h hx hy
  have hvalue := h.value
  obtain ⟨hxhigh, hxlow⟩ := hx
  obtain ⟨hyhigh, hylow⟩ := hy
  have hcarry := carry.toNat_le
  have hv := v.toNat_lt
  have hout : (decimalAdjust v f).flags.c = highNeedsCorrection v f := rfl
  have hw : w.toNat = if subtracts = true then (256 + v.toNat - (correction v f).toNat) % 256
      else (v.toNat + (correction v f).toNat) % 256 := by
    have hsmall := (correction v f).toNat_lt
    show (if f.n = true then v - correction v f else v + correction v f).toNat = _
    rw [h.subtraction]
    split
    · rw [UInt8.toNat_sub]
      omega
    · exact UInt8.toNat_add _ _
  rw [hout]
  rw [toNat_correction] at hw
  rw [Leaves] at hlow hhigh
  generalize lowNeedsCorrection v f = lowCorrected at hlow hw
  generalize highNeedsCorrection v f = highCorrected at hhigh hw ⊢
  simp only [Numeral.packed]
  cases subtracts <;> cases lowCorrected <;> cases highCorrected <;>
    simp only [exactValue_false, exactValue_true, Bool.toNat_false, Bool.toNat_true, Bool.false_eq_true,
      false_iff, true_iff, if_true, if_false] at hlow hhigh hvalue hw ⊢ <;> omega

end Adjustment

/-- Adjusted sums and differences are exact on packed digits. -/
lemma exact_adjusted {subtracts : Bool} {op : UInt8 → UInt8 → Bool → Result}
    (h : Calculates subtracts op) : Numeral.packed.Exact subtracts (adjusted op) where
  isDigit carry hx hy := (decimalAdjust_exact (h _ _ carry).1 hx hy).1
  digit carry hx hy := (decimalAdjust_exact (h _ _ carry).1 hx hy).2

end Arithmetic

/-! ## Instructions -/

/-- Opcodes that combine the accumulator with a register or with the memory at HL. -/
lemma grid_of_combine (op : UInt8) (h : 0x80 ≤ op ∧ op < 0xC0) :
    inGrid op = true ∧ gridLength op = 1 ∧ (op % 8 ≠ 6 → gridDuration op = 4) ∧
      gridOperation op = .combine (namedCombination (op / 8 % 8)) (namedOperand (op % 8)) := by
  revert op
  exact forall_byte (by decide +kernel)

/-- Opcodes of sums and of differences; bit 3 says whether the carry is taken in. -/
lemma combines_sum (subtracts : Bool) (op : UInt8)
    (h : op &&& 0xF0 = if subtracts = true then 0x90 else 0x80) :
    (0x80 ≤ op ∧ op < 0xC0) ∧ namedCombination (op / 8 % 8) =
      if subtracts = true then if op &&& 8 != 0 then .subCarry else .sub
      else if op &&& 8 != 0 then .addCarry else .add := by
  revert op
  refine forall_byte ?_
  cases subtracts <;> decide +kernel

section Step

variable {β : Type} [Bus β] {p : Processor} (h : p.Ready) {bus : β}

include h

/-- The step of an instruction that combines the accumulator with a register. -/
lemma step_of_combine {op : UInt8} (hop : MemoryBus.peek bus p.registers.pc = op)
    (hrange : 0x80 ≤ op ∧ op < 0xC0) {r : ByteRegister} (hr : namedRegister (op % 8) = some r) :
    let k := p.registers
    p.step bus = p.stepTo
      ((k.setResult ((namedCombination (op / 8 % 8)).apply k.a (k.byte r) k.f.c)).passed 1 1) bus 4 := by
  intro k
  obtain ⟨hgrid, hlength, hduration, hoperation⟩ := grid_of_combine op hrange
  have hregister : op % 8 ≠ 6 := by
    intro hmemory
    rw [hmemory] at hr
    cases hr
  have hoperand : namedOperand (op % 8) = .register r := by
    rw [namedOperand, hr]
  rw [step_of_inGrid h hop hgrid, hlength, hduration hregister, hoperation, hoperand]
  rfl

/-- The step of a decimal adjustment. -/
lemma step_of_decimalAdjust (hop : MemoryBus.peek bus p.registers.pc = 0x27) :
    let k := p.registers
    p.step bus = p.stepTo ((k.setResult (Arithmetic.decimalAdjust k.a k.f)).passed 1 1) bus 4 :=
  Processor.step_of_main h hop rfl rfl rfl

end Step

/-- Two instructions that are executed next: a sum, or a difference, of the accumulator and a register, with
or without the carry, and its decimal adjustment. -/
structure DecimalStage (β : Type) [Bus β] (subtracts : Bool) where
  /-- The processor before the first instruction. -/
  processor : Processor
  /-- The bus before the first instruction. -/
  bus : β
  /-- The opcode of the first instruction. -/
  op : UInt8
  /-- The register of the first instruction. -/
  register : ByteRegister
  /-- An instruction is executed next. -/
  ready : processor.Ready
  /-- Its opcode is found at the program counter. -/
  first : MemoryBus.peek bus processor.registers.pc = op
  /-- It is the opcode of a sum, or of a difference. -/
  combines : op &&& 0xF0 = if subtracts = true then 0x90 else 0x80
  /-- The opcode names the register. -/
  named : namedRegister (op % 8) = some register
  /-- The adjustment comes behind it. -/
  second : MemoryBus.peek bus (processor.registers.pc + 1) = 0x27
  /-- No interrupt comes between them. -/
  uninterrupted : (processor.step bus).processor.Ready

namespace DecimalStage

variable {β : Type} [Bus β] {subtracts : Bool} (s : DecimalStage β subtracts)

/-- The left operand. -/
def left : UInt8 :=
  s.processor.registers.a

/-- The right operand. -/
def right : UInt8 :=
  s.processor.registers.byte s.register

/-- The carry that is taken in: that of the flags, or none if the opcode says so. -/
def carryIn : Bool :=
  s.op &&& 8 != 0 && s.processor.registers.f.c

/-- The registers after both instructions. -/
def after : Registers :=
  let between := s.processor.step s.bus
  (between.processor.step between.bus).processor.registers

/-- What both instructions leave in the accumulator and in the flags. -/
def result : Result :=
  Arithmetic.adjusted (Arithmetic.calculate subtracts) s.left s.right s.carryIn

/-- Both instructions together leave the adjusted sum or difference, and change no other register. -/
lemma after_eq : s.after = (s.processor.registers.setResult s.result).passed 2 2 := by
  set k := s.processor.registers
  obtain ⟨hrange, hcombination⟩ := combines_sum subtracts s.op s.combines
  set calculated := Arithmetic.calculate subtracts s.left s.right s.carryIn with hcalculated
  have happly : (namedCombination (s.op / 8 % 8)).apply k.a (k.byte s.register) k.f.c = calculated := by
    rw [hcombination, hcalculated, carryIn, Arithmetic.calculate]
    cases subtracts <;> cases s.op &&& 8 != 0 <;> rfl
  set between := s.processor.stepTo ((k.setResult calculated).passed 1 1) s.bus 4
  have hfirst : s.processor.step s.bus = between := by
    refine (step_of_combine s.ready s.first hrange s.named).trans ?_
    rw [happly]
  have hready : between.processor.Ready := hfirst ▸ s.uninterrupted
  have hcode : MemoryBus.peek between.bus between.processor.registers.pc = 0x27 := s.second
  simp only [after, hfirst, step_of_decimalAdjust hready hcode]
  exact (k.setResult s.result).passed_passed 1 1 1 1

/-- The carry goes from one stage to the next: the first one takes `c` in and the last one leaves `c'`. -/
def CarriesThrough : Bool → List (DecimalStage β subtracts) → Bool → Prop
  | c, [], c' => c = c'
  | c, s :: stages, c' => s.carryIn = c ∧ CarriesThrough s.after.f.c stages c'

/-- Stages through which the carry goes are a chain of adjusted sums or differences. -/
lemma CarriesThrough.eq_chain {stages : List (DecimalStage β subtracts)} {c c' : Bool}
    (h : CarriesThrough c stages c') (f : Flags) (hf : f.c = c) :
    let op := Arithmetic.adjusted (Arithmetic.calculate subtracts)
    let result := chain (List.zipWith op (stages.map left) (stages.map right)) f
    stages.map (fun s => s.after.a) = result.1 ∧ result.2.c = c' := by
  induction stages generalizing c f with
  | nil => exact ⟨rfl, hf.trans h⟩
  | cons s stages ih =>
    obtain ⟨hcarry, hrest⟩ := h
    have hresult : Arithmetic.adjusted (Arithmetic.calculate subtracts) s.left s.right f.c = s.result := by
      rw [hf, ← hcarry]
      rfl
    rw [after_eq] at hrest
    obtain ⟨hvalues, hout⟩ := ih hrest s.result.flags rfl
    simp only [List.map_cons, List.zipWith_cons_cons, chain, hresult]
    refine ⟨?_, hout⟩
    rw [hvalues, after_eq]
    rfl

end DecimalStage

/-! ## The law -/

namespace Arithmetic

open Numeral

/-- **Packed decimal arithmetic of any length.**  A chain of sums of packed digits, each adjusted to decimal
digits before its carry goes on, gives packed digits, and with the last carry as the place after them they
stand for the exact sum.  A chain of adjusted differences gives the exact difference, with the last borrow as
that place.  So do the instructions that add or subtract a register, each with its adjustment behind it, if
the carry goes from one stage to the next; what comes between the stages does not matter. -/
theorem packed_exact {xs ys : List UInt8} (hlength : xs.length = ys.length)
    (hxs : ∀ x ∈ xs, packed.IsDigit x) (hys : ∀ y ∈ ys, packed.IsDigit y) (f : Flags) :
    let n := xs.length
    let sum := chain (List.zipWith (adjusted add) xs ys) f
    let difference := chain (List.zipWith (adjusted sub) xs ys) f
    (sum.1.length = n ∧ (∀ v ∈ sum.1, packed.IsDigit v) ∧
      packed.value sum.1 + sum.2.c.toNat * 100 ^ n = packed.value xs + packed.value ys + f.c.toNat) ∧
    (difference.1.length = n ∧ (∀ v ∈ difference.1, packed.IsDigit v) ∧
      (packed.value difference.1 : Int) - difference.2.c.toNat * 100 ^ n =
        packed.value xs - packed.value ys - f.c.toNat) ∧
    (∀ (β : Type) [Bus β] (subtracts : Bool) (stages : List (DecimalStage β subtracts)) (c' : Bool),
      stages.map DecimalStage.left = xs → stages.map DecimalStage.right = ys →
      DecimalStage.CarriesThrough f.c stages c' →
      let result := if subtracts = true then difference else sum
      stages.map (fun s => s.after.a) = result.1 ∧ c' = result.2.c ∧
      ∀ s ∈ stages, s.after = (s.processor.registers.setResult s.result).passed 2 2) := by
  intro n sum difference
  have hadd := exact_adjusted calculates_add
  have hsub := exact_adjusted calculates_sub
  obtain ⟨haddLength, haddValue⟩ := hadd.sum_chain hlength hxs hys f
  obtain ⟨hsubLength, hsubValue⟩ := hsub.difference_chain hlength hxs hys f
  refine ⟨⟨haddLength, hadd.isDigit_chain hlength hxs hys f, haddValue⟩,
    ⟨hsubLength, hsub.isDigit_chain hlength hxs hys f, hsubValue⟩, ?_⟩
  intro β _ subtracts stages c' hleft hright hcarries result
  obtain ⟨hvalues, hout⟩ := hcarries.eq_chain f rfl
  rw [hleft, hright] at hvalues hout
  refine ⟨?_, ?_, fun s _ => s.after_eq⟩
  · rw [hvalues]
    cases subtracts <;> rfl
  · rw [← hout]
    cases subtracts <;> rfl

/-- One is added to 9999, by a sum without and one with the carry. -/
theorem packed_exact_round :
    let xs : List UInt8 := [0x99, 0x99]
    let ys : List UInt8 := [0x01, 0x00]
    let f := Flags.ofByte 0x00
    let sum := chain (List.zipWith (adjusted add) xs ys) f
    xs.length = ys.length ∧ (∀ x ∈ xs, packed.IsDigit x) ∧ (∀ y ∈ ys, packed.IsDigit y) ∧
      packed.value sum.1 + sum.2.c.toNat * 100 ^ 2 = 9999 + 1 + 0 ∧ sum.1 = [0x00, 0x00] ∧
      ∃ s t : DecimalStage Board false, DecimalStage.CarriesThrough false [s, t] true ∧
        s.left = 0x99 ∧ t.left = 0x99 ∧ s.right = 0x01 ∧ t.right = 0x00 ∧
        s.after.a = 0x00 ∧ t.after.a = 0x00 := by
  intro xs ys f sum
  have hlength : xs.length = ys.length := rfl
  have hxs : ∀ x ∈ xs, packed.IsDigit x := by decide +kernel
  have hys : ∀ y ∈ ys, packed.IsDigit y := by decide +kernel
  let k : Registers := { Registers.powerOn with a := 0x99 }
  let bus : Board :=
    { memory := (((Memory.zero.write 0 0x80).write 1 0x27).write 2 0x88).write 3 0x27 }
  let s : DecimalStage Board false :=
    { processor := { registers := { k with f, b := 0x01 } }
      bus
      op := 0x80
      register := .b
      ready := ⟨rfl, rfl⟩
      first := by decide +kernel
      combines := by decide
      named := rfl
      second := by decide +kernel
      uninterrupted := by refine ⟨?_, ?_⟩ <;> decide +kernel }
  let t : DecimalStage Board false :=
    { processor := { registers := { k with f := Flags.ofByte 0x01, pc := 2 } }
      bus
      op := 0x88
      register := .b
      ready := ⟨rfl, rfl⟩
      first := by decide +kernel
      combines := by decide
      named := rfl
      second := by decide +kernel
      uninterrupted := by refine ⟨?_, ?_⟩ <;> decide +kernel }
  have hcarries : DecimalStage.CarriesThrough f.c [s, t] true := by
    have hlast : t.after.f.c = true := by decide +kernel
    exact ⟨by decide +kernel, by decide +kernel, hlast⟩
  obtain ⟨⟨-, -, hvalue⟩, -, hstages⟩ := packed_exact hlength hxs hys f
  obtain ⟨hresult, -⟩ := hstages Board false [s, t] true rfl rfl hcarries
  have hdigits : sum.1 = [0x00, 0x00] := by decide +kernel
  have hexact : packed.value xs + packed.value ys + f.c.toNat = 9999 + 1 + 0 := by decide +kernel
  rw [if_neg Bool.false_ne_true] at hresult
  obtain ⟨hfirst, hsecond⟩ : s.after.a = 0x00 ∧ t.after.a = 0x00 := by
    simpa using hresult.trans hdigits
  exact ⟨hlength, hxs, hys, hvalue.trans hexact, hdigits, s, t, hcarries, rfl, rfl, rfl, rfl,
    hfirst, hsecond⟩

end Arithmetic

end Z80

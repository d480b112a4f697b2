import Z80.Proofs.ByteOperation
import Z80.Proofs.Extended

/-!
# Arithmetic on pairs

An opcode of the main page adds a pair to HL, or behind an index prefix to the index register; two more of
the extended page add or subtract a pair and the carry.  `step_of_addPair` and `step_of_pairCarry` give the
whole effect of such a step on registers and bus, on any bus.

They look at registers only, so their plan is done before anything is read, and `Processor.step_of_done`
tells the step of every such instruction.
-/

namespace Z80

/-! ## Opcodes -/

/-- The pair that bits 5 and 4 of an opcode name; behind an index prefix, the index register is in the place
of HL. -/
def namedPair (x : Option Index) (op : UInt8) : Pair :=
  match op / 16 % 4 with
  | 0 => .bc
  | 1 => .de
  | 2 => pairHL x
  | _ => .sp

/-- An opcode of the main page is found at an address, behind an index prefix if an index register is
given. -/
def OpcodeAt {β : Type} [MemoryBus β] (bus : β) (pc : UInt16) (x : Option Index) (op : UInt8) : Prop :=
  match x with
  | none => MemoryBus.peek bus pc = op
  | some y => MemoryBus.peek bus pc = y.prefixByte ∧ MemoryBus.peek bus (pc + 1) = op

/-- The main page, or that behind an index prefix. -/
def Page.ofIndex : Option Index → Page
  | none => .main
  | some y => .indexed y

/-- A short opcode that is found at an address is decoded there. -/
lemma OpcodeAt.decodeAt_eq {β : Type} [MemoryBus β] {bus : β} {pc : UInt16} {x : Option Index} {op : UInt8}
    (h : OpcodeAt bus pc x op) (hbare : isPrefix op = false)
    (hplain : (mainOperation x op).isIndexed = false) (hsize : (mainOperation x op).immediateSize = 0) :
    decodeAt bus pc = { page := Page.ofIndex x, opcode := op } := by
  cases x with
  | none =>
    have hcode : MemoryBus.codeAt bus pc 0 = op := (MemoryBus.codeAt_first bus pc).trans h
    rw [decodeAt, decode_main (by rw [hcode]; exact hbare),
      decodeFrom_of_plain .main _ 0 (by rw [hcode]; exact hplain), hcode]
    show Instruction.mk .main op 0 (immediateValue _ 1 (mainOperation none op).immediateSize) = _
    rw [hsize]
    rfl
  | some y =>
    have hfirst : MemoryBus.codeAt bus pc 0 = y.prefixByte := (MemoryBus.codeAt_first bus pc).trans h.1
    have hcode : MemoryBus.codeAt bus pc 1 = op := h.2
    rw [decodeAt, decode_index y hfirst, decodeIndexed_main y (by rw [hcode]; exact hbare),
      decodeFrom_of_plain (.indexed y) _ 1 (by rw [hcode]; exact hplain), hcode]
    show Instruction.mk (.indexed y) op 0 (immediateValue _ 2 (mainOperation (some y) op).immediateSize) = _
    rw [hsize]
    rfl

set_option maxRecDepth 4000 in
/-- Four opcodes of the main page add a pair to HL, or to the index register in its place. -/
lemma mainOperation_addPair (x : Option Index) (op : UInt8) (hop : op &&& 0xCF = 0x09) :
    mainOperation x op = .addPair (pairHL x) (namedPair x op) ∧ isPrefix op = false := by
  revert op
  refine forall_byte ?_
  rcases x with _ | _ | _ <;> decide +kernel

set_option maxRecDepth 4000 in
/-- Four opcodes of the extended page add a pair and the carry to HL, and four subtract them. -/
lemma extendedOperation_pairCarry (op : UInt8) :
    (op &&& 0xCF = 0x4A → extendedOperation op = .addPairCarry (namedPair none op)) ∧
      (op &&& 0xCF = 0x42 → extendedOperation op = .subPairCarry (namedPair none op)) := by
  revert op
  exact forall_byte (by decide +kernel)

/-! ## Steps -/

/-- The fetch changes no pair. -/
@[simp] lemma Registers.pair_passed (k : Registers) (fetches : UInt8) (length : UInt16) (p : Pair) :
    (k.passed fetches length).pair p = k.pair p := by
  cases p with
  | index x => cases x <;> rfl
  | _ => rfl

/-- The step of an instruction that only changes registers. -/
lemma Processor.step_of_done {β : Type} [Bus β] {p : Processor} (h : p.Ready) {bus : β} {i : Instruction}
    (hi : decodeAt bus p.registers.pc = i) {effect : Effect} (hplan : i.plan p.registers = .done effect)
    (hstore : effect.store = .nothing) :
    (p.step bus).processor.registers =
        { effect.registers with wz := i.latch p.config.revision p.registers effect } ∧
      (p.step bus).bus = bus := by
  have hrun : (i.plan p.looked.registers).run bus = (effect, bus) := by
    show (i.plan p.registers).run bus = _
    rw [hplan, Plan.run, Plan.fetch, hstore]
    rfl
  rw [step_of_ready h, hi, execute, hrun]
  exact ⟨rfl, rfl⟩

/-- The number of bytes of a short opcode of the main page, all of which are fetched as opcodes. -/
def shortLength : Option Index → Nat
  | none => 1
  | some _ => 2

section Step

variable {β : Type} [Bus β] {p : Processor} (h : p.Ready) {bus : β} {op : UInt8}

include h

/-- The step of an instruction that adds a pair to HL, or to the index register behind an index prefix. -/
lemma step_of_addPair {x : Option Index} (hfound : OpcodeAt bus p.registers.pc x op)
    (hop : op &&& 0xCF = 0x09) :
    let k := p.registers
    let result := Arithmetic.addPair (k.pair (pairHL x)) (k.pair (namedPair x op)) k.f
    (p.step bus).processor.registers =
        { (k.passed (UInt8.ofNat (shortLength x)) (UInt16.ofNat (shortLength x))).setPair (pairHL x)
            result.value with
          f := result.flags
          wz := k.pair (pairHL x) + 1 } ∧
      (p.step bus).bus = bus := by
  intro k result
  obtain ⟨hoperation, hbare⟩ := mainOperation_addPair x op hop
  have hi : decodeAt bus k.pc = { page := Page.ofIndex x, opcode := op } := by
    apply hfound.decodeAt_eq hbare <;> rw [hoperation] <;> rfl
  set i : Instruction := { page := Page.ofIndex x, opcode := op }
  have hadds : i.operation = .addPair (pairHL x) (namedPair x op) := by
    rw [← hoperation]
    cases x <;> rfl
  set fetched := k.passed (UInt8.ofNat (shortLength x)) (UInt16.ofNat (shortLength x)) with hfetched
  have hfetch : i.fetched k = fetched := by
    rw [Instruction.fetched, Instruction.length, Instruction.isIndexed, hadds]
    cases x <;> rfl
  have hplan : i.plan k = .done
      { registers := { fetched.setPair (pairHL x) result.value with f := result.flags }
        pair := k.pair (pairHL x) } := by
    rw [Instruction.plan, hadds, hfetch, Operation.plan, hfetched, Registers.pair_passed,
      Registers.pair_passed]
    rfl
  obtain ⟨hregisters, hbus⟩ := Processor.step_of_done h hi hplan rfl
  refine ⟨hregisters.trans ?_, hbus⟩
  rw [Instruction.latch, hadds]
  rfl

/-- The step of an opcode of the extended page that adds a pair with the carry to HL, or subtracts one. -/
lemma step_of_pairCarry (hfirst : MemoryBus.peek bus p.registers.pc = 0xED)
    (hsecond : MemoryBus.peek bus (p.registers.pc + 1) = op)
    (hop : op &&& 0xCF = 0x4A ∨ op &&& 0xCF = 0x42) :
    let k := p.registers
    let source := k.pair (namedPair none op)
    let result := if op &&& 0xCF = 0x4A then Arithmetic.addPairCarry k.hl source k.f.c
      else Arithmetic.subPairCarry k.hl source k.f.c
    (p.step bus).processor.registers =
        { (k.passed 2 2).setHL result.value with f := result.flags, wz := k.hl + 1 } ∧
      (p.step bus).bus = bus := by
  intro k source result
  obtain ⟨hadds, hsubtracts⟩ := extendedOperation_pairCarry op
  have hoperation : extendedOperation op =
      if op &&& 0xCF = 0x4A then .addPairCarry (namedPair none op) else .subPairCarry (namedPair none op) := by
    split
    · exact hadds ‹_›
    · exact hsubtracts (hop.resolve_left ‹_›)
  have hi : decodeAt bus k.pc = { page := .extended, opcode := op } := by
    have hsize : (extendedOperation (MemoryBus.peek bus (k.pc + 1))).immediateSize = 0 := by
      rw [hsecond, hoperation]
      split <;> rfl
    rw [decodeAt_extended hfirst hsize, hsecond]
  set i : Instruction := { page := .extended, opcode := op }
  have hfetch : i.fetched k = k.passed 2 2 := by
    show Registers.passed k 2 (UInt16.ofNat (2 + (extendedOperation op).isIndexed.toNat +
      (extendedOperation op).immediateSize)) = _
    rw [hoperation]
    split <;> rfl
  have hplan : i.plan k = .done
      { registers := { (k.passed 2 2).setHL result.value with f := result.flags }, pair := k.hl } := by
    rw [Instruction.plan, hfetch]
    show (extendedOperation op).plan 0 0 _ = _
    rw [hoperation]
    simp only [result]
    split <;> simp only [Operation.plan, Registers.pair_passed] <;> rfl
  obtain ⟨hregisters, hbus⟩ := Processor.step_of_done h hi hplan rfl
  have hlatch : ∀ effect : Effect, effect.pair = k.hl →
      i.latch p.config.revision k effect = k.hl + 1 := by
    intro effect hpair
    show (extendedOperation op).latchRule.apply _ _ _ = _
    rw [hoperation]
    split <;> exact congrArg (· + 1) hpair
  refine ⟨hregisters.trans ?_, hbus⟩
  rw [hlatch _ rfl]

end Step

end Z80

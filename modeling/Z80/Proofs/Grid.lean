import Z80.Proofs.ByteArithmetic
import Z80.Proofs.ByteOperation
import Z80.Proofs.Word

/-!
# Copies of bytes and combinations with the accumulator

The middle half of the main page is a grid: bits 2 to 0 of an opcode name a source, and bits 5 to 3 name
a destination to which it is copied or one of eight ways to combine it with the accumulator.  The eight
combinations stand once more at the end of the page with an immediate byte as source.

`step_grid` tells the whole step of such an opcode, on any bus, from the names alone: where the source is
found, what becomes of it, and that nothing else changes.
-/

namespace Z80

/-! ## The opcodes -/

/-- The opcodes that copy a byte or combine one with the accumulator. -/
def inGrid (op : UInt8) : Bool :=
  0x40 ≤ op && op < 0xC0 && op != 0x76 || op &&& 0xC7 == 0xC6

/-- The operand that three bits of an opcode name. -/
def namedOperand (code : UInt8) : Operand :=
  match namedRegister code with
  | some r => .register r
  | none => .atHL

/-- What an opcode of the grid does. -/
def gridOperation (op : UInt8) : Operation :=
  let named := op / 8 % 8
  if op < 0x80 then .load (namedOperand named) (namedOperand (op % 8))
  else if op < 0xC0 then .combine (namedCombination named) (namedOperand (op % 8))
  else .combineImmediate (namedCombination named)

/-- The T-states of an opcode of the grid: memory or an immediate byte takes three more. -/
def gridDuration (op : UInt8) : Nat :=
  if 0xC0 ≤ op ∨ op % 8 = 6 ∨ op < 0x80 ∧ op / 8 % 8 = 6 then 7 else 4

/-- The length of an opcode of the grid, with the immediate byte. -/
def gridLength (op : UInt8) : UInt16 :=
  if 0xC0 ≤ op then 2 else 1

/-- The opcodes of the grid stand for what they name. -/
lemma mainOperation_grid (op : UInt8) (h : inGrid op = true) :
    mainOperation none op = gridOperation op ∧ isPrefix op = false ∧
      (gridOperation op).duration = gridDuration op ∧
      UInt16.ofNat (1 + (gridOperation op).immediateSize) = gridLength op := by
  revert op
  exact forall_byte (by decide +kernel)

section Step

variable {β : Type} [Bus β]

/-! ## Sources and destinations -/

namespace Registers

/-- The byte that an opcode names, and the bus after it has been found: a register, or the memory at
HL. -/
def named (k : Registers) (code : UInt8) (bus : β) : UInt8 × β :=
  match namedRegister code with
  | some r => (k.byte r, bus)
  | none => MemoryBus.read bus k.hl

/-- The registers and the bus after a byte has been copied to the place that an opcode names: a
register, or the memory at HL. -/
def copied (k : Registers) (code v : UInt8) (bus : β) : Registers × β :=
  match namedRegister code with
  | some r => (k.setByte r v, bus)
  | none => (k, MemoryBus.write bus k.hl v)

/-- The source of an opcode of the grid, and the bus after it has been found. -/
def gridSource (k : Registers) (op : UInt8) (bus : β) : UInt8 × β :=
  if 0xC0 ≤ op then (MemoryBus.peek bus (k.pc + 1), bus) else k.named (op % 8) bus

end Registers

/-- The named operand is found where the opcode says. -/
lemma readFrom_namedOperand (code : UInt8) (d : Int8) (k : Registers) (bus : β) :
    (namedOperand code).readFrom d k bus = k.named code bus := by
  rw [namedOperand, Registers.named]
  cases namedRegister code with
  | some r => rfl
  | none => rfl

/-- The named operand is written where the opcode says. -/
lemma write_namedOperand (code : UInt8) (d : Int8) (k : Registers) (v : UInt8) (bus : β) :
    let effect := (namedOperand code).write d k v
    (effect.registers, effect.store.run bus) = k.copied code v bus := by
  rw [namedOperand, Registers.copied]
  cases namedRegister code with
  | some r => rfl
  | none => rfl

/-! ## The step -/

/-- An opcode of the grid does what it names, and nothing else. -/
lemma step_of_inGrid {p : Processor} (h : p.Ready) {bus : β} {op : UInt8}
    (hop : MemoryBus.peek bus p.registers.pc = op) (hgrid : inGrid op = true) :
    let immediate := immediateValue (MemoryBus.codeAt bus p.registers.pc) 1
      (gridOperation op).immediateSize
    let result := ((gridOperation op).plan 0 immediate p.registers).run bus
    p.step bus = p.stepTo (result.1.registers.passed 1 (gridLength op)) result.2 (gridDuration op) := by
  intro immediate result
  obtain ⟨hoperation, hbare, hduration, hlength⟩ := mainOperation_grid op hgrid
  have hbytes : (gridOperation op).onBytes = true := by
    rw [gridOperation]
    split
    · rfl
    · split <;> rfl
  rw [Processor.step_of_main h hop hbare hoperation hbytes, hduration, hlength]

/-- **Copies and combinations.**  A copy puts the byte that bits 2 to 0 of the opcode name to the place
that bits 5 to 3 name, and changes no flag.  A combination leaves in the accumulator and in the flags what
the law of the combination says of the accumulator and that byte, or the immediate one.  Nothing else
changes but the refresh counter, the program counter and the time. -/
theorem step_grid {p : Processor} (h : p.Ready) (bus : β) {op : UInt8}
    (hop : MemoryBus.peek bus p.registers.pc = op) (hgrid : inGrid op = true) :
    let k := p.registers
    let source := k.gridSource op bus
    ∃ after bus',
      p.step bus = p.stepTo (after.passed 1 (gridLength op)) bus' (gridDuration op) ∧
      (op < 0x80 → (after, bus') = k.copied (op / 8 % 8) source.1 source.2) ∧
      (0x80 ≤ op → bus' = source.2 ∧ ∃ result,
        (namedCombination (op / 8 % 8)).Lawful k.a source.1 k.f.c result ∧
        after = { k with a := result.value, f := result.flags }) := by
  intro k source
  refine ⟨_, _, step_of_inGrid h hop hgrid, ?_, ?_⟩
  · intro hcopy
    have hlow : ¬ 0xC0 ≤ op := by grind
    have hsource : source = k.named (op % 8) bus := if_neg hlow
    have hload : gridOperation op =
        .load (namedOperand (op / 8 % 8)) (namedOperand (op % 8)) := if_pos hcopy
    rw [hload, hsource, ← readFrom_namedOperand (op % 8) 0 k bus, Operation.plan, Operand.run_read]
    exact write_namedOperand _ 0 k _ _
  · intro hcombine
    have hnocopy : ¬ op < 0x80 := by grind
    by_cases himmediate : 0xC0 ≤ op
    · have hsource : source = (MemoryBus.peek bus (k.pc + 1), bus) := if_pos himmediate
      have hcombination : gridOperation op = .combineImmediate (namedCombination (op / 8 % 8)) := by
        rw [gridOperation, if_neg hnocopy, if_neg (by grind)]
      rw [hcombination, hsource]
      refine ⟨rfl, _, Combination.apply_lawful _ _ _ _, ?_⟩
      show k.setResult (Combination.apply _ k.a (low (MemoryBus.codeAt bus k.pc 1).toUInt16) k.f.c) = _
      rw [low_toUInt16]
      rfl
    · have hsource : source = k.named (op % 8) bus := if_neg himmediate
      have hcombination : gridOperation op =
          .combine (namedCombination (op / 8 % 8)) (namedOperand (op % 8)) := by
        rw [gridOperation, if_neg hnocopy, if_pos (by grind)]
      rw [hcombination, hsource, ← readFrom_namedOperand (op % 8) 0 k bus, Operation.plan,
        Operand.run_read]
      exact ⟨rfl, _, Combination.apply_lawful _ _ _ _, rfl⟩

/-- The byte at HL and the carry are added to the accumulator, and the signed sum overflows. -/
theorem step_grid_overflow :
    let registers : Registers :=
      { Registers.powerOn with a := 0x7F, f := Flags.ofByte 0x01, h := 0x12, l := 0x34 }
    let p : Processor := { registers }
    let bus : Board := { memory := Memory.zero.write 0 0x8E }
    p.Ready ∧ MemoryBus.peek bus p.registers.pc = 0x8E ∧ inGrid 0x8E = true ∧
      (∃ after bus', p.step bus = p.stepTo (after.passed 1 1) bus' 7 ∧ bus' = bus ∧ ∃ result,
        Combination.addCarry.Lawful 0x7F 0x00 true result ∧
        after = { registers with a := result.value, f := result.flags }) ∧
      (p.step bus).processor.registers =
        { registers with a := 0x80, f := Flags.ofByte 0x94, pc := 1, r := 1 } := by
  intro registers p bus
  have h : p.Ready := ⟨rfl, rfl⟩
  have hop : MemoryBus.peek bus p.registers.pc = 0x8E := by decide +kernel
  have hgrid : inGrid 0x8E = true := by decide
  obtain ⟨after, bus', hstep, -, hcombine⟩ := step_grid h bus hop hgrid
  have hsource : (p.registers.gridSource 0x8E bus).1 = 0x00 := by decide +kernel
  obtain ⟨hbus, result, hlawful, hafter⟩ := hcombine (by decide)
  rw [hsource] at hlawful
  exact ⟨h, hop, hgrid, ⟨after, bus', hstep, hbus, result, hlawful, hafter⟩, by decide +kernel⟩

end Step

end Z80

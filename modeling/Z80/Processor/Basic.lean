import Z80.Event
import Z80.Execution.Acceptance
import Z80.Execution.Semantics
import Z80.Instruction.Decode
import Z80.Registers.Selector
import Z80.Ticks

/-!
# The processor

A processor is a register file, the interrupts that wait, a configuration and a count of the
T-states so far. It does not own the bus. One step accepts an interrupt, waits if the processor
is halted, or executes one whole instruction. No step is shorter than four T-states, which is
why a run of steps comes to an end.
-/

namespace Z80

/-- A processor. -/
structure Processor where
  /-- The registers. -/
  registers : Registers := .powerOn
  /-- The interrupts that wait. -/
  interrupts : Interrupts := .idle
  /-- The configuration. -/
  config : Config := {}
  /-- The T-states of all steps so far. -/
  ticks : Ticks := .zero
  deriving DecidableEq

/-- What a step gives. -/
structure Step (β : Type) where
  /-- The processor after the step. -/
  processor : Processor
  /-- The bus after the step. -/
  bus : β
  /-- The T-states of the step. -/
  duration : Nat
  /-- What is worth noting about the step. -/
  event : Option Event := none

/-- What the operation of an instruction does to the latches of the interrupt system. -/
def Operation.latchInterrupts (op : Operation) (k : Interrupts) : Interrupts :=
  match op with
  | .enableInterrupts => k.defer
  | .prefixByte => k.hold
  | _ => k

namespace Instruction

/-- The registers after the fetch of an instruction. -/
def fetched (i : Instruction) (k : Registers) : Registers :=
  { k.advanceRefresh (UInt8.ofNat i.page.fetches) with pc := k.pc + UInt16.ofNat i.length }

/-- The plan of an instruction, from the registers before its fetch. -/
def plan (i : Instruction) (k : Registers) : Plan :=
  i.operation.plan i.displacement i.immediate (i.fetched k)

/-- The address latch after an instruction, which had the given effect on the registers `k`. -/
def latch (i : Instruction) (revision : Revision) (k : Registers) (effect : Effect) : UInt16 :=
  i.operation.latchRule.apply revision
    { address := effect.address
      a := k.a
      pair := effect.pair
      pc := k.pc
      taken := effect.taken }
    effect.registers.wz

/-- The T-states of an instruction that had the given effect. -/
def durationOf (i : Instruction) (effect : Effect) : Nat :=
  if effect.taken then i.duration + i.extraDuration else i.duration

/-- What is worth noting about an instruction at an address. -/
def event? (i : Instruction) (pc : UInt16) : Option Event :=
  match i.operation with
  | .undefined => some (.undefinedOpcode i.opcode pc)
  | _ => none

end Instruction

namespace Processor

/-- The program counter. -/
def pc (p : Processor) : UInt16 :=
  p.registers.pc

/-- Whether the processor waits for an interrupt. -/
def isHalted (p : Processor) : Bool :=
  p.registers.halted

/-- Requests a maskable interrupt; the device supplies `data`. -/
def interrupt (p : Processor) (data : UInt8) : Processor :=
  { p with interrupts := p.interrupts.raise data }

/-- Requests a maskable interrupt with the byte of the configuration. -/
def requestInterrupt (p : Processor) : Processor :=
  p.interrupt p.config.interruptByte

/-- Withdraws the maskable request. -/
def clearInterrupt (p : Processor) : Processor :=
  { p with interrupts := p.interrupts.withdraw }

/-- Requests a non-maskable interrupt. -/
def nmi (p : Processor) : Processor :=
  { p with interrupts := p.interrupts.latchNmi }

/-- Writes a register by name. -/
def set (p : Processor) (s : Selector) (v : UInt16) : Processor :=
  { p with registers := p.registers.set s v }

/-- Replaces the register file and nothing else. -/
def restore (p : Processor) (registers : Registers) : Processor :=
  { p with registers }

/-- Puts registers and interrupts back to their state after power-on; the configuration and the
count of T-states stay. -/
def reset (p : Processor) : Processor :=
  { p with registers := .powerOn, interrupts := .idle }

variable {β : Type} [Bus β]

/-- Accepts an interrupt. -/
def acceptInterrupt (p : Processor) (interrupt : Interrupt) (bus : β) : Step β :=
  let mode := p.registers.im
  let result := (p.registers.accept interrupt).run bus
  let registers := result.1.registers
  let duration := interrupt.duration mode
  { processor := { p with registers, ticks := p.ticks.advance duration }
    bus := result.2
    duration
    event := some (.accepted interrupt mode p.registers.pc registers.pc) }

/-- Waits for an interrupt. -/
def wait (p : Processor) (bus : β) : Step β where
  processor := { p with registers := p.registers.advanceRefresh 1, ticks := p.ticks.advance 4 }
  bus := bus
  duration := 4

/-- Executes a given instruction. -/
def execute (p : Processor) (i : Instruction) (bus : β) : Step β :=
  let result := (i.plan p.registers).run bus
  let effect := result.1
  let duration := i.durationOf effect
  { processor :=
      { registers :=
          { effect.registers with wz := i.latch p.config.revision p.registers effect }
        interrupts := i.operation.latchInterrupts p.interrupts
        config := p.config
        ticks := p.ticks.advance duration }
    bus := result.2
    duration
    event := i.event? p.registers.pc }

/-- Accepts an interrupt, waits, or executes the instruction at the program counter. -/
def step (p : Processor) (bus : β) : Step β :=
  let polled := p.interrupts.poll p.registers.iff1
  let next := { p with interrupts := polled.2 }
  match polled.1 with
  | some interrupt => next.acceptInterrupt interrupt bus
  | none =>
    if p.registers.halted then next.wait bus
    else next.execute (decodeAt bus p.registers.pc) bus

/-- Accepting an interrupt takes at least four T-states. -/
theorem four_le_duration_accept (interrupt : Interrupt) (mode : UInt8) :
    4 ≤ interrupt.duration mode := by
  unfold Interrupt.duration
  split
  · decide
  · split <;> decide

/-- An instruction takes at least four T-states. -/
theorem four_le_durationOf (i : Instruction) (effect : Effect) : 4 ≤ i.durationOf effect := by
  have := i.four_le_duration
  unfold Instruction.durationOf
  split <;> omega

/-- No step is shorter than four T-states. -/
theorem four_le_duration_step (p : Processor) (bus : β) : 4 ≤ (p.step bus).duration := by
  simp only [step]
  split
  · exact four_le_duration_accept _ _
  · split
    · exact Nat.le_refl 4
    · exact four_le_durationOf _ _

end Processor

end Z80

import Mathlib.Tactic.Common
import Z80.Machine

/-!
# The three kinds of step

A step looks for an interrupt first.  It then accepts the one it found, waits because the processor
is halted, or executes the instruction at the program counter.  `Processor.Ready` names the third
case, in which most laws of this library are stated.

On a board, reading changes nothing.  The plan of an instruction therefore has an *outcome*, the
effect that follows from the bytes it finds, and `registers_step_of_ready` gives the registers after
the step in terms of it.
-/

namespace Z80

/-- The first byte of the code at an address is the byte found there. -/
lemma MemoryBus.codeAt_first {β : Type} [MemoryBus β] (bus : β) (a : UInt16) :
    codeAt bus a 0 = peek bus a := by
  simp [codeAt]

/-- The first byte of the code at an address of a board is the byte there. -/
lemma codeAt_zero (board : Board) (a : UInt16) :
    MemoryBus.codeAt board a 0 = board.memory.read a :=
  MemoryBus.codeAt_first board a

/-! ## Outcomes -/

/-- The effect of a plan on a board. -/
def Plan.outcome (p : Plan) (board : Board) : Effect :=
  match p with
  | .done effect => effect
  | .readByte address next => next (board.memory.read address)
  | .readWord address next => next (board.memory.readWord address)
  | .readPort number next => next (board.inputs number)

/-- Carrying out a plan on a board gives its outcome, and the board changes by what that stores. -/
lemma Plan.run_eq (p : Plan) (board : Board) :
    p.run board = (p.outcome board, (p.outcome board).store.run board) := by
  cases p <;> rfl

/-- A plan reads one value, so whatever it comes to on a bus, it comes to on some board. -/
lemma Plan.exists_outcome {β : Type} [Bus β] (p : Plan) (bus : β) :
    ∃ board : Board, p.outcome board = (p.run bus).1 := by
  cases p with
  | done effect => exact ⟨{}, rfl⟩
  | readByte a next =>
    set v := (MemoryBus.read bus a).1
    have hread : (Memory.zero.write a v).read a = v := by rw [Memory.read_write, if_pos rfl]
    exact ⟨{ memory := Memory.zero.write a v }, congrArg next hread⟩
  | readWord a next =>
    set lo := MemoryBus.read bus a
    set hi := MemoryBus.read lo.2 (a + 1)
    have hne : a ≠ a + 1 := by grind
    have hread : ((Memory.zero.write a lo.1).write (a + 1) hi.1).readWord a = word hi.1 lo.1 := by
      rw [Memory.readWord, Memory.read_write, if_pos rfl, Memory.read_write, if_neg hne,
        Memory.read_write, if_pos rfl]
    exact ⟨{ memory := (Memory.zero.write a lo.1).write (a + 1) hi.1 }, congrArg next hread⟩
  | readPort port next => exact ⟨{ inputs := fun _ => (Bus.input bus port).1 }, rfl⟩

/-! ## Changed registers -/

/-- The effect with its registers changed. -/
def Effect.onRegisters (e : Effect) (change : Registers → Registers) : Effect :=
  { e with registers := change e.registers }

/-- The plan with the registers of its effect changed. -/
def Plan.onRegisters (p : Plan) (change : Registers → Registers) : Plan :=
  match p with
  | .done effect => .done (effect.onRegisters change)
  | .readByte address next => .readByte address fun v => (next v).onRegisters change
  | .readWord address next => .readWord address fun v => (next v).onRegisters change
  | .readPort number next => .readPort number fun v => (next v).onRegisters change

/-- The change of registers does not show on the bus. -/
lemma Plan.run_onRegisters {β : Type} [Bus β] (p : Plan) (change : Registers → Registers)
    (bus : β) :
    (p.onRegisters change).run bus = ((p.run bus).1.onRegisters change, (p.run bus).2) := by
  cases p <;> rfl

/-- The change of registers reaches the outcome. -/
lemma Plan.outcome_onRegisters (p : Plan) (change : Registers → Registers) (board : Board) :
    (p.onRegisters change).outcome board = (p.outcome board).onRegisters change := by
  cases p <;> rfl

namespace Processor

/-! ## The look for an interrupt -/

/-- The interrupt that the next step accepts, if there is one. -/
def accepts? (p : Processor) : Option Interrupt :=
  (p.interrupts.poll p.registers.iff1).1

/-- The processor after the look for an interrupt with which every step begins. -/
def looked (p : Processor) : Processor :=
  { p with interrupts := (p.interrupts.poll p.registers.iff1).2 }

/-- The next step executes an instruction: no interrupt is accepted and the processor is not
halted. -/
structure Ready (p : Processor) : Prop where
  /-- No interrupt is accepted. -/
  accepts : p.accepts? = none
  /-- The processor does not wait. -/
  halted : p.registers.halted = false

/-- A processor that accepts an interrupt executes nothing. -/
lemma not_ready_of_accepts {p : Processor} {i : Interrupt} (h : p.accepts? = some i) : ¬ p.Ready := by
  intro hready
  rw [hready.accepts] at h
  cases h

/-- A halted processor executes nothing. -/
lemma not_ready_of_halted {p : Processor} (h : p.registers.halted = true) : ¬ p.Ready := by
  intro hready
  rw [hready.halted] at h
  cases h

/-! ## The step in each case -/

section Cases

variable {β : Type} [Bus β] {p : Processor}

/-- A step that finds an interrupt accepts it. -/
lemma step_of_accepts {i : Interrupt} (h : p.accepts? = some i) (bus : β) :
    p.step bus = p.looked.acceptInterrupt i bus := by
  unfold accepts? at h
  simp only [step, h, looked]

/-- A halted processor that finds no interrupt waits. -/
lemma step_of_halted (h : p.accepts? = none) (hh : p.registers.halted = true) (bus : β) :
    p.step bus = p.looked.wait bus := by
  unfold accepts? at h
  simp only [step, h, hh, looked, if_true]

/-- A ready processor executes the instruction at the program counter. -/
lemma step_of_ready (h : p.Ready) (bus : β) :
    p.step bus = p.looked.execute (decodeAt bus p.registers.pc) bus := by
  have ha := h.accepts
  unfold accepts? at ha
  simp only [step, ha, h.halted, looked, Bool.false_eq_true, if_false]

variable (p) in
/-- A step accepts an interrupt, waits, or executes an instruction. -/
lemma step_cases (bus : β) :
    (∃ i, p.accepts? = some i ∧ p.step bus = p.looked.acceptInterrupt i bus) ∨
    (p.accepts? = none ∧ p.registers.halted = true ∧ p.step bus = p.looked.wait bus) ∨
    (p.Ready ∧ p.step bus = p.looked.execute (decodeAt bus p.registers.pc) bus) := by
  cases ha : p.accepts? with
  | some i => exact Or.inl ⟨i, rfl, step_of_accepts ha bus⟩
  | none =>
    cases hh : p.registers.halted with
    | true => exact Or.inr (Or.inl ⟨rfl, rfl, step_of_halted ha hh bus⟩)
    | false => exact Or.inr (Or.inr ⟨⟨ha, hh⟩, step_of_ready ⟨ha, hh⟩ bus⟩)

end Cases

/-- The outcome of the instruction at the program counter. -/
def outcome (p : Processor) (board : Board) : Effect :=
  ((decodeAt board p.registers.pc).plan p.registers).outcome board

/-- The registers after the instruction at the program counter are those of its outcome, with the
address latch set by its rule. -/
lemma registers_step_of_ready {p : Processor} (h : p.Ready) (board : Board) :
    (p.step board).processor.registers =
      { (p.outcome board).registers with
        wz := (decodeAt board p.registers.pc).latch p.config.revision p.registers
          (p.outcome board) } := by
  rw [step_of_ready h, execute, Plan.run_eq]
  rfl

end Processor

end Z80

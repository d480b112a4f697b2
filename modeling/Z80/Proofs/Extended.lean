import Z80.Proofs.Latch
import Z80.Proofs.Run

/-!
# Steps on the extended page

Most opcodes of the extended page have no immediate value.  Such an instruction is two bytes long and
both bytes are fetched as opcodes, so all that is particular to it is its operation;
`Machine.AtExtended.next_eq` gives the machine after it in terms of the effect of that operation.
-/

namespace Z80

/-- Whether an operation concerns the registers and enables of the interrupt system that only the
extended page reaches. -/
def Operation.isSystem : Operation → Bool
  | .setInterruptPage | .setRefresh | .getInterruptPage | .getRefresh | .setMode _
  | .retInterrupt => true
  | _ => false

set_option maxRecDepth 4000 in
lemma isSystem_mainOperation (x : Option Index) (op : UInt8) :
    (mainOperation x op).isSystem = false := by
  revert op
  refine forall_byte ?_
  rcases x with _ | _ | _ <;> decide +kernel

lemma isSystem_bitsOperation (o : Operand) (copy : Option ByteRegister) (op : UInt8) :
    (bitsOperation o copy op).isSystem = false := by
  simp only [bitsOperation]
  split <;> rfl

/-- An operation that only the extended page reaches is found there. -/
lemma Encoding.extended_of_isSystem {code : Nat → UInt8} {i : Instruction} (h : Encoding code i)
    (hsystem : i.operation.isSystem = true) :
    code 0 = 0xED ∧ i.operation = extendedOperation (code 1) := by
  have absurd_of : ∀ {op : Operation}, op.isSystem = false → i.operation = op →
      code 0 = 0xED ∧ i.operation = extendedOperation (code 1) := by
    intro op hplain hop
    rw [hop, hplain] at hsystem
    cases hsystem
  cases h with
  | main hfirst => exact absurd_of (isSystem_mainOperation none _) (operation_decodeFrom _ _ _)
  | bits hfirst => exact absurd_of (isSystem_bitsOperation _ _ _) (operation_decodeFrom _ _ _)
  | extended hfirst => exact ⟨hfirst, operation_decodeFrom _ _ _⟩
  | indexed x hfirst hsecond =>
    exact absurd_of (isSystem_mainOperation (some x) _) (operation_decodeFrom _ _ _)
  | indexedBits x hfirst hsecond => exact absurd_of (isSystem_bitsOperation _ _ _) rfl
  | lone x hfirst hsecond => cases hsystem

/-- An opcode of the extended page that has no immediate value, as it is found at an address. -/
lemma decodeAt_extended {β : Type} [MemoryBus β] {bus : β} {pc : UInt16}
    (hfirst : MemoryBus.peek bus pc = 0xED)
    (hsize : (extendedOperation (MemoryBus.peek bus (pc + 1))).immediateSize = 0) :
    decodeAt bus pc = { page := .extended, opcode := MemoryBus.peek bus (pc + 1) } := by
  set code := MemoryBus.codeAt bus pc
  have hcode : code 0 = 0xED := (MemoryBus.codeAt_first bus pc).trans hfirst
  have hplain : (Page.extended.operation (code 1)).isIndexed = false :=
    (immediateSize_extendedOperation (code 1)).2
  have hnone : (Page.extended.operation (code 1)).immediateSize = 0 := hsize
  rw [decodeAt, decode_extended hcode, decodeFrom_of_plain _ _ _ hplain, hnone]
  rfl

/-- The registers after the fetch of two opcode bytes. -/
def Registers.fetchedTwo (k : Registers) : Registers :=
  { k.advanceRefresh 2 with pc := k.pc + 2 }

namespace Machine

variable {m : Machine} {op : Operation}

/-- The machine is about to execute an operation that is found on the extended page and has no
immediate value. -/
structure AtExtended (m : Machine) (op : Operation) : Prop where
  /-- The next step executes an instruction. -/
  ready : m.processor.Ready
  /-- The prefix comes first. -/
  first : m.read m.processor.registers.pc = 0xED
  /-- The opcode comes second. -/
  second : extendedOperation (m.read (m.processor.registers.pc + 1)) = op
  /-- Nothing follows. -/
  size : op.immediateSize = 0

/-- The effect of an operation after the fetch of two opcode bytes. -/
def extendedEffect (m : Machine) (op : Operation) : Effect :=
  (op.plan 0 0 m.processor.registers.fetchedTwo).outcome m.board

/-- The instruction at the program counter, its plan and the step that executes it. -/
lemma AtExtended.step_eq (h : m.AtExtended op) : ∃ i : Instruction,
    i.page = .extended ∧ i.operation = op ∧
    i.plan m.processor.registers = op.plan 0 0 m.processor.registers.fetchedTwo ∧
    m.step = m.processor.looked.execute i m.board := by
  obtain ⟨hready, hfirst, rfl, hsize⟩ := h
  set i : Instruction := { page := .extended, opcode := m.read (m.processor.registers.pc + 1) }
  have hlength : i.length = 2 := by
    have hplain : i.isIndexed = false := (immediateSize_extendedOperation _).2
    have hnone : i.operation.immediateSize = 0 := hsize
    rw [Instruction.length, hplain, hnone]
    rfl
  refine ⟨i, rfl, rfl, ?_, ?_⟩
  · rw [Instruction.plan, Instruction.fetched, hlength]
    rfl
  · rw [step, Processor.step_of_ready hready]
    exact congrArg (fun i => m.processor.looked.execute i m.board)
      (decodeAt_extended hfirst hsize)

/-- The fetch of the prefix comes on top of the duration of the operation. -/
lemma AtExtended.duration_eq (h : m.AtExtended op) :
    m.step.duration =
      4 + op.duration + if (m.extendedEffect op).taken = true then op.extraDuration else 0 := by
  obtain ⟨i, hpage, rfl, hplan, hstep⟩ := h.step_eq
  have hduration : i.duration = 4 + i.operation.duration := by
    rw [Instruction.duration, hpage]
    rfl
  rw [hstep, Processor.execute, Plan.run_eq]
  show i.durationOf ((i.plan m.processor.registers).outcome m.board) = _
  rw [hplan, Instruction.durationOf, hduration]
  show (if (m.extendedEffect i.operation).taken = true then _ else _) = _
  split <;> rfl

/-- The machine after the operation has its effect, with the address latch set by its rule. -/
lemma AtExtended.next_eq (h : m.AtExtended op) :
    let effect := m.extendedEffect op
    m.next =
      { processor :=
          { registers :=
              { effect.registers with
                wz := op.latchRule.apply m.processor.config.revision
                  (effect.notes m.processor.registers) effect.registers.wz }
            interrupts := op.latchInterrupts m.processor.looked.interrupts
            config := m.processor.config
            ticks := m.processor.ticks + m.step.duration }
        board := effect.store.run m.board } := by
  obtain ⟨i, -, rfl, hplan, hstep⟩ := h.step_eq
  have hrun : (i.plan m.processor.looked.registers).run m.board =
      (m.extendedEffect i.operation, (m.extendedEffect i.operation).store.run m.board) := by
    show (i.plan m.processor.registers).run m.board = _
    rw [hplan]
    exact Plan.run_eq _ _
  rw [next, hstep, Processor.execute, hrun]
  rfl

end Machine

end Z80

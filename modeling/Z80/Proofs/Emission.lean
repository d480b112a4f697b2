import Z80.Proofs.Bookkeeping
import Z80.Proofs.Encoding
import Z80.Proofs.Implicit
import Z80.Proofs.Service
import Z80.Proofs.Word

/-!
# What is written to ports

A step writes at most one byte to a port.  This file states, opcode by opcode, which byte goes to which
port, from the registers and the memory *before* the step, and proves that the step adds just that to the
record of port writes (`Processor.writes_step`).

The table stands by itself, as those of the next address and of the footprint do.  `Operation.emission`
lies between the table and the operations: `Operation.written?_plan` follows every operation to what it
stores.

The record only grows until it is drained, and nothing depends on it.  A sequence of commands therefore
writes the same bytes in the same order wherever the record is drained in between, and does everything
else as it would without the drains (`Machine.record_law`).
-/

namespace Z80

/-! ## The table -/

/-- What an instruction writes to a port.  The immediate byte is the one that follows the opcode. -/
inductive Emission
  /-- Nothing. -/
  | nothing
  /-- The accumulator, to the port with the accumulator over the immediate byte. -/
  | accumulator
  /-- A register, to the port in BC. -/
  | register (r : ByteRegister)
  /-- Zero, to the port in BC. -/
  | zero
  /-- The byte at HL, to the port in BC with B counted down. -/
  | block
  deriving DecidableEq

/-- The port and the byte that goes to it, where the registers `k` and the memory are those before the
instruction and what follows the opcode starts `start` bytes after the first byte. -/
def Emission.written? (emission : Emission) (k : Registers) (memory : Memory) (start : Nat) :
    Option (UInt16 × UInt8) :=
  match emission with
  | .nothing => none
  | .accumulator => some (word k.a (memory.read (k.pc + UInt16.ofNat start)), k.a)
  | .register r => some (k.bc, k.byte r)
  | .zero => some (k.bc, 0)
  | .block => some (word (k.b - 1) k.c, memory.read k.hl)

/-- What the opcodes of the main page write. -/
def mainEmission (op : UInt8) : Emission :=
  if op = 0xD3 then .accumulator else .nothing

/-- What the opcodes of the extended page write. -/
def extendedEmission (op : UInt8) : Emission :=
  match op with
  | 0x41 => .register .b
  | 0x49 => .register .c
  | 0x51 => .register .d
  | 0x59 => .register .e
  | 0x61 => .register .h
  | 0x69 => .register .l
  | 0x71 => .zero
  | 0x79 => .register .a
  | 0xA3 | 0xAB | 0xB3 | 0xBB => .block
  | _ => .nothing

/-- What the instruction with the given first two bytes writes.  An index prefix makes no difference. -/
def emissionOf (first second : UInt8) : Emission :=
  match first with
  | 0xCB => .nothing
  | 0xED => extendedEmission second
  | 0xDD => mainEmission second
  | 0xFD => mainEmission second
  | op => mainEmission op

/-- What the instruction at the program counter of the registers `k` writes to a port. -/
def instructionEmission? (k : Registers) (memory : Memory) : Option (UInt16 × UInt8) :=
  let first := memory.read k.pc
  (emissionOf first (memory.read (k.pc + 1))).written? k memory (operandStart first)

/-- What the next step writes to a port: neither accepting an interrupt nor waiting writes anything. -/
def Processor.emission? (p : Processor) (memory : Memory) : Option (UInt16 × UInt8) :=
  match p.accepts? with
  | some _ => none
  | none => if p.registers.halted = true then none else instructionEmission? p.registers memory

/-! ## The emissions of operations -/

/-- The emission of an operation. -/
def Operation.emission : Operation → Emission
  | .outputAccumulator => .accumulator
  | .output none => .zero
  | .output (some r) => .register r
  | .blockOutput _ _ => .block
  | _ => .nothing

set_option maxRecDepth 4000 in
/-- The emissions of the main page are those of its operations. -/
lemma emission_mainOperation (x : Option Index) (op : UInt8) :
    (mainOperation x op).emission = mainEmission op := by
  revert op
  refine forall_byte ?_
  rcases x with _ | _ | _ <;> decide +kernel

set_option maxRecDepth 4000 in
lemma emission_extendedOperation (op : UInt8) :
    (extendedOperation op).emission = extendedEmission op := by
  revert op
  exact forall_byte (by decide +kernel)

/-- No operation on single bytes writes to a port. -/
lemma emission_bitsOperation (o : Operand) (copy : Option ByteRegister) (op : UInt8) :
    (bitsOperation o copy op).emission = .nothing := by
  simp only [bitsOperation]
  split <;> rfl

/-- A byte that is no prefix has its emission on the main page. -/
lemma emissionOf_of_main {first : UInt8} (h : isPrefix first = false) (second : UInt8) :
    emissionOf first second = mainEmission first :=
  match_of_main _ _ _ _ _ _ h

lemma emissionOf_index (x : Index) (second : UInt8) :
    emissionOf x.prefixByte second = mainEmission second := by
  cases x <;> rfl

/-- The emissions of all operations are those of the table. -/
lemma tabulates_emission :
    Tabulates (fun first second _ => emissionOf first second) Operation.emission where
  main hfirst second _ := by
    rw [emissionOf_of_main hfirst]
    exact emission_mainOperation none _
  bits _ _ := emission_bitsOperation _ _ _
  extended _ _ := emission_extendedOperation _
  indexed x _ _ _ := by
    rw [emissionOf_index]
    exact emission_mainOperation (some x) _
  indexedBits x _ := by
    rw [emissionOf_index]
    exact emission_bitsOperation _ _ _
  lone x _ hsecond _ := by
    rw [emissionOf_index]
    rcases hsecond with rfl | rfl | rfl <;> rfl

/-- The emission of an instruction is that of the table. -/
lemma Encoding.emission_eq {code : Nat → UInt8} {i : Instruction} (h : Encoding code i) :
    i.operation.emission = emissionOf (code 0) (code 1) :=
  h.eq_table tabulates_emission

/-! ## Operations and their stores -/

/-- The port and the byte of a store that goes to a port. -/
def Store.written? : Store → Option (UInt16 × UInt8)
  | .port number value => some (number, value)
  | _ => none

/-- A store adds its entry to the record, and nothing else. -/
lemma Store.writes_run (s : Store) (board : Board) :
    (s.run board).writes = board.writes ++ s.written?.toArray := by
  cases s with
  | port number value => rfl
  | _ => exact Array.append_empty.symm

@[simp] lemma Operand.written?_write (o : Operand) (d : Int8) (k : Registers) (v : UInt8) :
    (o.write d k v).store.written? = none := by
  cases o <;> rfl

/-- The byte of a register does not depend on the fetch. -/
lemma Registers.byte_fetched (k : Registers) (r : UInt8) (pc : UInt16) (source : ByteRegister) :
    ({ k with r, pc } : Registers).byte source = k.byte source := by
  cases source with
  | indexHigh x | indexLow x => cases x <;> rfl
  | _ => rfl

/-- Every operation writes to ports what its emission says, if its immediate value is found where the
emission looks for it. -/
lemma Operation.written?_plan (op : Operation) (k : Registers) (r : UInt8) (d : Int8)
    {immediate : UInt16} (next : UInt16) (board : Board) (start : Nat)
    (himmediate : op.isIndexed = false → immediate =
      immediateValue (MemoryBus.codeAt board k.pc) start op.immediateSize) :
    ((op.plan d immediate { k with r, pc := next }).outcome board).store.written? =
      op.emission.written? k board.memory start := by
  cases op with
  | outputAccumulator =>
    have hbyte : low immediate = board.memory.read (k.pc + UInt16.ofNat start) := by
      rw [himmediate rfl]
      exact low_toUInt16 _
    show some (word k.a (low immediate), k.a) = _
    rw [hbyte]
    rfl
  | output source =>
    cases source with
    | none => rfl
    | some source => exact congrArg (fun v => some (k.bc, v)) (k.byte_fetched r next source)
  | callIf condition =>
    simp only [plan, Registers.callIf]
    split <;> rfl
  | retIf condition =>
    simp only [plan]
    split <;> rfl
  | loadImmediate o => exact o.written?_write d _ _
  | load target source =>
    simp only [plan, Operand.outcome_read]
    exact target.written?_write d _ _
  | increment o | decrement o | shift _ o _ | resetBit _ o _ | setBit _ o _ =>
    simp only [plan, Operand.outcome_read]
    exact o.written?_write d _ _
  | combine | testBit =>
    simp only [plan, Operand.outcome_read]
    rfl
  | _ => rfl

/-! ## The record after a step -/

/-- The instruction at the program counter writes to ports what the table says. -/
lemma Processor.written?_outcome (p : Processor) (board : Board) :
    (p.outcome board).store.written? = instructionEmission? p.registers board.memory := by
  set k := p.registers
  have hi := encoding_decode (MemoryBus.codeAt board k.pc)
  have hfirst : board.memory.read k.pc = MemoryBus.codeAt board k.pc 0 := (codeAt_zero board k.pc).symm
  have hsecond : board.memory.read (k.pc + 1) = MemoryBus.codeAt board k.pc 1 := rfl
  rw [instructionEmission?, hfirst, hsecond, ← hi.emission_eq]
  exact Operation.written?_plan _ k _ _ _ board _ hi.immediate_eq

/-- A step adds at most one entry to the record of port writes, the one that the table gives. -/
lemma Processor.writes_step (p : Processor) (board : Board) :
    (p.step board).bus.writes = board.writes ++ (p.emission? board.memory).toArray := by
  obtain ⟨i, haccepts, hstep⟩ | ⟨haccepts, hhalted, hstep⟩ | ⟨hready, hstep⟩ := p.step_cases board
  · have hstore : ((p.registers.accept i).outcome board).store =
        .push p.registers.sp p.registers.pc := by
      rw [Registers.outcome_accept]
    have hnone : p.emission? board.memory = none := by rw [emission?, haccepts]
    rw [hstep, hnone, acceptInterrupt, Plan.run_eq]
    show (((p.registers.accept i).outcome board).store.run board).writes = _
    rw [hstore]
    exact Array.append_empty.symm
  · have hnone : p.emission? board.memory = none := by
      rw [emission?, haccepts]
      exact if_pos hhalted
    rw [hstep, hnone]
    exact Array.append_empty.symm
  · have hemission : p.emission? board.memory = (p.outcome board).store.written? := by
      rw [emission?, hready.accepts, hready.halted, p.written?_outcome]
      rfl
    rw [hstep, hemission, execute, Plan.run_eq]
    exact Store.writes_run _ board

/-! ## The record under commands -/

/-- Whether a command leaves in the record what is there. -/
def Command.keepsRecord : Command → Bool
  | .drainPortWrites => false
  | _ => true

namespace Machine

/-- What the next step writes to a port. -/
def emission? (m : Machine) : Option (UInt16 × UInt8) :=
  m.processor.emission? m.board.memory

/-- What a given number of steps write to ports. -/
def stepEmissions (m : Machine) : Nat → Array (UInt16 × UInt8)
  | 0 => #[]
  | k + 1 => m.emission?.toArray ++ m.next.stepEmissions k

/-- What the steps of a sequence of commands write to ports. -/
def emissions (m : Machine) : List Command → Array (UInt16 × UInt8)
  | [] => #[]
  | action :: actions =>
    m.stepEmissions (m.stepCount action) ++ (m.perform action).emissions actions

/-- What a command takes out of the record. -/
def drainedBy (m : Machine) : Command → Array (UInt16 × UInt8)
  | .drainPortWrites => m.portWrites
  | _ => #[]

/-- What the drains of a sequence of commands take out of the record, one after the other. -/
def drained (m : Machine) : List Command → Array (UInt16 × UInt8)
  | [] => #[]
  | action :: actions => m.drainedBy action ++ (m.perform action).drained actions

variable (m : Machine)

/-- A step adds what it writes. -/
lemma portWrites_next : m.next.portWrites = m.portWrites ++ m.emission?.toArray :=
  m.processor.writes_step m.board

/-- Steps add what they write. -/
lemma portWrites_steps (k : Nat) :
    (m.steps k).machine.portWrites = m.portWrites ++ m.stepEmissions k := by
  induction k generalizing m with
  | zero => exact Array.append_empty.symm
  | succ k ih =>
    show (m.next.steps k).machine.portWrites = _
    rw [ih, portWrites_next, Array.append_assoc]
    rfl

/-- What a command takes out of the record and what it leaves there is what was there, with what its
steps write. -/
lemma drainedBy_append_portWrites (action : Command) :
    m.drainedBy action ++ (m.perform action).portWrites =
      m.portWrites ++ m.stepEmissions (m.stepCount action) := by
  cases action with
  | step => exact (Array.empty_append).trans (m.portWrites_steps 1)
  | run budget =>
    have hrun : (m.perform (.run budget)).portWrites =
        (m.steps (m.runLength budget)).machine.portWrites := by
      rw [perform, run_eq_steps]
    exact Array.empty_append.trans (hrun.trans (m.portWrites_steps _))
  | writeBlock start block =>
    obtain ⟨memory, hperform⟩ := exists_perform_writeBlock m.board.memory start block
    rw [hperform m rfl]
    exact Array.empty_append.trans Array.append_empty.symm
  | drainPortWrites => rfl
  | _ => exact Array.empty_append.trans Array.append_empty.symm

/-- What is drained and what is left in the end is what was there at first, with what all steps write. -/
lemma drained_append_portWrites (actions : List Command) :
    m.drained actions ++ (m.performAll actions).portWrites = m.portWrites ++ m.emissions actions := by
  induction actions generalizing m with
  | nil => exact Array.empty_append.trans Array.append_empty.symm
  | cons action actions ih =>
    rw [drained, emissions, performAll_cons, Array.append_assoc, ih, ← Array.append_assoc,
      drainedBy_append_portWrites, Array.append_assoc]

/-! ## Leaving the drains out -/

/-- The machine with earlier port writes in its record. -/
def withEarlier (past : Array (UInt16 × UInt8)) : Machine :=
  { m with board := m.board.withPast past }

/-- The run with earlier port writes in the record of its machine. -/
def Run.withEarlier (r : Run) (past : Array (UInt16 × UInt8)) : Run :=
  { r with machine := r.machine.withEarlier past }

variable (past : Array (UInt16 × UInt8))

/-- A step adds to earlier port writes and depends on none of them. -/
lemma step_withEarlier :
    (m.withEarlier past).step = { m.step with bus := m.step.bus.withPast past } :=
  m.processor.step_board_withPast m.board past

/-- Steps do the same with earlier port writes in the record. -/
lemma steps_withEarlier (k : Nat) :
    (m.withEarlier past).steps k = (m.steps k).withEarlier past := by
  induction k generalizing m with
  | zero => rfl
  | succ k ih =>
    have hnext : (m.withEarlier past).next = m.next.withEarlier past :=
      congrArg ofStep (m.step_withEarlier past)
    have honce : (m.withEarlier past).once = m.once.withEarlier past := by
      rw [once, hnext, step_withEarlier]
      rfl
    rw [steps, honce, hnext, ih]
    rfl

/-- A run does the same with earlier port writes in the record. -/
lemma run_withEarlier (budget : Nat) :
    (m.withEarlier past).run budget = (m.run budget).withEarlier past := by
  have hsame : ∀ k, ((m.withEarlier past).steps k).duration = (m.steps k).duration := by
    intro k
    rw [steps_withEarlier]
    rfl
  have hlength := (m.isLength_runLength budget).congr fun k _ => hsame k
  rw [hlength.run_eq, steps_withEarlier, run_eq_steps]

/-- A command that does not empty the record does the same with earlier port writes in it. -/
lemma perform_withEarlier {action : Command} (h : action.keepsRecord = true) :
    (m.withEarlier past).perform action = (m.perform action).withEarlier past := by
  cases action with
  | step => exact congrArg Run.machine (m.steps_withEarlier past 1)
  | run budget => exact congrArg Run.machine (m.run_withEarlier past budget)
  | writeBlock start block =>
    obtain ⟨memory, hperform⟩ := exists_perform_writeBlock m.board.memory start block
    rw [hperform m rfl, hperform (m.withEarlier past) rfl]
    rfl
  | drainPortWrites => cases h
  | _ => rfl

/-- Without its drains, a sequence of commands leads to the same machine but for what the drains have
taken out of the record. -/
lemma performAll_filter_keepsRecord (actions : List Command) :
    (m.withEarlier past).performAll (actions.filter Command.keepsRecord) =
      (m.performAll actions).withEarlier (past ++ m.drained actions) := by
  induction actions generalizing m past with
  | nil =>
    rw [drained, Array.append_empty]
    rfl
  | cons action actions ih =>
    rw [performAll_cons, drained, ← Array.append_assoc, ← ih]
    by_cases hkeeps : action.keepsRecord = true
    · have hnothing : m.drainedBy action = #[] := by
        cases action with
        | drainPortWrites => cases hkeeps
        | _ => rfl
      rw [List.filter_cons_of_pos hkeeps, performAll_cons, m.perform_withEarlier past hkeeps,
        hnothing, Array.append_empty]
    · obtain rfl : action = .drainPortWrites := by
        cases action with
        | drainPortWrites => rfl
        | _ => exact absurd rfl hkeeps
      -- What is drained here is what the longer record still has in front.
      have hdrained : (m.perform .drainPortWrites).withEarlier (past ++ m.portWrites) =
          m.withEarlier past :=
        congrArg (fun writes => Machine.mk m.processor { m.board with writes }) Array.append_empty
      rw [List.filter_cons_of_neg hkeeps, ← hdrained]
      rfl

/-- **The record of port writes.**  A step adds to the record the one entry of the table, or nothing.
Whatever commands are given, what is drained on the way and what is left in the end are together, in
this order, the record of the same commands without the drains, which is the record from the start
with one entry after the other.  The machines do not differ otherwise, nor does what they do next. -/
theorem record_law (actions : List Command) :
    m.next.portWrites = m.portWrites ++ m.emission?.toArray ∧
      let whole := m.performAll (actions.filter Command.keepsRecord)
      let reached := m.performAll actions
      whole.portWrites = m.drained actions ++ reached.portWrites ∧
        whole.portWrites = m.portWrites ++ m.emissions actions ∧
        whole = reached.withEarlier (m.drained actions) ∧
        whole.step = { reached.step with bus := reached.step.bus.withPast (m.drained actions) } ∧
        ∀ budget, whole.run budget = (reached.run budget).withEarlier (m.drained actions) := by
  refine ⟨m.portWrites_next, ?_⟩
  intro whole reached
  have hempty : m.withEarlier #[] = m :=
    congrArg (fun writes => Machine.mk m.processor { m.board with writes }) Array.empty_append
  have hwhole : whole = reached.withEarlier (m.drained actions) := by
    have hfiltered := m.performAll_filter_keepsRecord #[] actions
    rw [hempty, Array.empty_append] at hfiltered
    exact hfiltered
  have hrecord : whole.portWrites = m.drained actions ++ reached.portWrites :=
    congrArg portWrites hwhole
  refine ⟨hrecord, ?_, hwhole, ?_, fun budget => ?_⟩
  · rw [hrecord, drained_append_portWrites]
  · rw [hwhole, step_withEarlier]
  · rw [hwhole, run_withEarlier]

end Machine

end Z80

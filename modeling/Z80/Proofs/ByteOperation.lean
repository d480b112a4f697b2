import Z80.Proofs.Encoding
import Z80.Proofs.Implicit

/-!
# Operations on bytes

Copies, counts, combinations with the accumulator, shifts and operations on single bits read a byte,
make something of it and write a byte, all through operands; a few more work on the accumulator and the
flags alone.  They look neither at the program counter nor at the refresh counter, so the fetch of an
instruction and what its operation does can be told apart: `Processor.execute_of_onBytes` gives the step of
such an instruction in terms of its operation on the registers *before* the fetch, on any bus.

`namedRegister` and `namedCombination` say which register and which combination three bits of an opcode
name, independently of the tables by which opcodes are decoded.
-/

namespace Z80

/-! ## What three bits name -/

/-- The register that three bits of an opcode name; 6 names a byte of memory. -/
def namedRegister (code : UInt8) : Option ByteRegister :=
  match code with
  | 0 => some .b
  | 1 => some .c
  | 2 => some .d
  | 3 => some .e
  | 4 => some .h
  | 5 => some .l
  | 7 => some .a
  | _ => none

/-- The combination with the accumulator that three bits of an opcode name. -/
def namedCombination (code : UInt8) : Combination :=
  match code with
  | 0 => .add
  | 1 => .addCarry
  | 2 => .sub
  | 3 => .subCarry
  | 4 => .and
  | 5 => .xor
  | 6 => .or
  | _ => .compare

/-! ## The fetch -/

/-- No fetch changes nothing. -/
lemma Registers.advanceRefresh_zero (k : Registers) : k.advanceRefresh 0 = k := by
  have hr : k.r / 128 * 128 + (k.r + 0) % 128 = k.r := by
    apply UInt8.toNat_inj.1
    have := k.r.toNat_lt
    simp only [UInt8.toNat_add, UInt8.toNat_mul, UInt8.toNat_div, UInt8.toNat_mod, UInt8.reduceToNat]
    omega
  rw [advanceRefresh, hr]

/-- The registers after `length` bytes of an instruction have been passed, some of which were fetched as
opcodes. -/
def Registers.passed (k : Registers) (fetches : UInt8) (length : UInt16) : Registers :=
  { k.advanceRefresh fetches with pc := k.pc + length }

namespace Registers

variable (k : Registers) (fetches : UInt8) (length : UInt16)

/-- The registers when an instruction has been passed, and another one. -/
lemma passed_passed (fetches' : UInt8) (length' : UInt16) :
    (k.passed fetches length).passed fetches' length' =
      k.passed (fetches + fetches') (length + length') := by
  have hpc : k.pc + length + length' = k.pc + (length + length') := UInt16.add_assoc _ _ _
  have hrefresh := k.advanceRefresh_advanceRefresh fetches fetches'
  show { (k.advanceRefresh fetches).advanceRefresh fetches' with pc := k.pc + length + length' } = _
  rw [hrefresh, hpc]
  rfl

@[simp] lemma byte_passed (r : ByteRegister) : (k.passed fetches length).byte r = k.byte r := by
  cases r with
  | indexHigh x | indexLow x => cases x <;> rfl
  | _ => rfl

/-- The flags are no byte register. -/
@[simp] lemma f_setByte (r : ByteRegister) (v : UInt8) : (k.setByte r v).f = k.f := by
  cases r with
  | indexHigh x | indexLow x => cases x <;> rfl
  | _ => rfl

@[simp] lemma setByte_passed (r : ByteRegister) (v : UInt8) :
    (k.passed fetches length).setByte r v = (k.setByte r v).passed fetches length := by
  cases r with
  | indexHigh x | indexLow x => cases x <;> rfl
  | _ => rfl

@[simp] lemma f_setByteIf (r : Option ByteRegister) (v : UInt8) : (k.setByteIf r v).f = k.f := by
  cases r with
  | none => rfl
  | some r => exact k.f_setByte r v

@[simp] lemma setByteIf_passed (r : Option ByteRegister) (v : UInt8) :
    (k.passed fetches length).setByteIf r v = (k.setByteIf r v).passed fetches length := by
  cases r with
  | none => rfl
  | some r => exact k.setByte_passed fetches length r v

end Registers

namespace Operand

variable (o : Operand) (d : Int8) (k : Registers) (fetches : UInt8) (length : UInt16)

@[simp] lemma address_passed : o.address d (k.passed fetches length) = o.address d k := by
  cases o with
  | atIndex x => cases x <;> rfl
  | _ => rfl

/-- Reading an operand does not look at what the fetch changes. -/
lemma read_passed {next next' : UInt8 → Effect}
    (h : ∀ v, next' v = (next v).onRegisters fun rest => rest.passed fetches length) :
    o.read d (k.passed fetches length) next' =
      (o.read d k next).onRegisters fun rest => rest.passed fetches length := by
  obtain rfl : next' = fun v => (next v).onRegisters fun rest => rest.passed fetches length := funext h
  cases o with
  | register r => simp only [read, Registers.byte_passed, Plan.onRegisters]
  | _ => simp only [read, address_passed, Plan.onRegisters]

/-- Writing an operand keeps what the fetch changes. -/
lemma write_passed (v : UInt8) :
    o.write d (k.passed fetches length) v =
      (o.write d k v).onRegisters fun rest => rest.passed fetches length := by
  cases o with
  | register r => simp only [write, Registers.setByte_passed, Effect.onRegisters]
  | _ => simp only [write, address_passed, Effect.onRegisters]

/-- The byte of an operand on a bus, and the bus after it has been read. -/
def readFrom {β : Type} [Bus β] (bus : β) : UInt8 × β :=
  match o with
  | .register r => (k.byte r, bus)
  | .atHL | .atIndex _ => MemoryBus.read bus (o.address d k)

/-- A plan that reads an operand goes on with its byte. -/
lemma run_read {β : Type} [Bus β] (next : UInt8 → Effect) (bus : β) :
    (o.read d k next).run bus =
      (next (o.readFrom d k bus).1, (next (o.readFrom d k bus).1).store.run (o.readFrom d k bus).2) := by
  cases o <;> rfl

end Operand

/-! ## Operations -/

namespace Operation

/-- Whether an operation works on bytes only: it reads an operand, an immediate byte, the accumulator or
the flags, and writes an operand, the accumulator or the flags. -/
def onBytes : Operation → Bool
  | .load _ _ | .loadImmediate _ | .increment _ | .decrement _ | .combine _ _ | .combineImmediate _
  | .negate | .decimalAdjust | .complement | .setCarry | .complementCarry | .shiftAccumulator _
  | .shift _ _ _ | .testBit _ _ | .resetBit _ _ _ | .setBit _ _ _ => true
  | _ => false

/-- An operation on bytes does the same before and after the fetch. -/
lemma plan_passed {op : Operation} (h : op.onBytes = true) (d : Int8) (immediate : UInt16)
    (k : Registers) (fetches : UInt8) (length : UInt16) :
    op.plan d immediate (k.passed fetches length) =
      (op.plan d immediate k).onRegisters fun rest => rest.passed fetches length := by
  cases op with
  | load target source =>
    simp only [plan]
    refine source.read_passed d k _ _ fun v => ?_
    rw [target.write_passed, Operand.address_passed]
    rfl
  | loadImmediate target => exact congrArg Plan.done (target.write_passed d k _ _ _)
  | increment o =>
    simp only [plan]
    refine o.read_passed d k _ _ fun v => ?_
    exact o.write_passed d { k with f := (Arithmetic.increment v k.f.c).flags } _ _ _
  | decrement o =>
    simp only [plan]
    refine o.read_passed d k _ _ fun v => ?_
    exact o.write_passed d { k with f := (Arithmetic.decrement v k.f.c).flags } _ _ _
  | combine operator source =>
    simp only [plan, Operand.address_passed]
    exact source.read_passed d k _ _ fun v => rfl
  | combineImmediate | negate | decimalAdjust | complement | setCarry | complementCarry
  | shiftAccumulator => rfl
  | shift s o copy =>
    simp only [plan, Registers.setByteIf_passed]
    refine o.read_passed d k _ _ fun v => ?_
    exact o.write_passed d { k.setByteIf copy _ with f := _ } _ _ _
  | testBit n o =>
    simp only [plan, Operand.address_passed]
    refine o.read_passed d k _ _ fun v => ?_
    cases o with
    | atIndex x => cases x <;> rfl
    | _ => rfl
  | resetBit n o copy | setBit n o copy =>
    simp only [plan, Registers.setByteIf_passed]
    exact o.read_passed d k _ _ fun v => o.write_passed d _ _ _ _
  | _ => cases h

/-- An operation on bytes adds no time, leaves no latch of the interrupt system set, and leaves the
address latch as it is unless it works on indexed memory. -/
lemma plain_of_onBytes {op : Operation} (h : op.onBytes = true) :
    op.extraDuration = 0 ∧ (∀ waiting, op.latchInterrupts waiting = waiting) ∧ op ≠ .undefined ∧
      op.plainLatchRule = .unchanged := by
  cases op with
  | load | loadImmediate | increment | decrement | combine | combineImmediate | negate | decimalAdjust
  | complement | setCarry | complementCarry | shiftAccumulator | shift | testBit | resetBit | setBit =>
    exact ⟨rfl, fun _ => rfl, nofun, rfl⟩
  | _ => cases h

/-- No operation writes the address latch, whatever the bus. -/
lemma wz_run {β : Type} [Bus β] (op : Operation) (d : Int8) (immediate : UInt16) (k : Registers)
    (bus : β) : ((op.plan d immediate k).run bus).1.registers.wz = k.wz := by
  obtain ⟨board, houtcome⟩ := (op.plan d immediate k).exists_outcome bus
  rw [← houtcome]
  refine (congrArg Implicit.wz (op.implicit_plan d immediate k board)).trans ?_
  cases op <;> rfl

end Operation

namespace Processor

variable {β : Type} [Bus β]

/-- Executing an instruction that works on bytes: what its operation makes of the registers before the
fetch, with its bytes passed.  On indexed memory, the address is left in the address latch. -/
lemma execute_of_onBytes {i : Instruction} (h : i.operation.onBytes = true) (p : Processor)
    (bus : β) :
    let result := (i.operation.plan i.displacement i.immediate p.registers).run bus
    let after := result.1.registers.passed (UInt8.ofNat i.page.fetches) (UInt16.ofNat i.length)
    p.execute i bus =
      { processor :=
          { p with
            registers := { after with wz := if i.isIndexed then result.1.address else p.registers.wz }
            ticks := p.ticks.advance i.duration }
        bus := result.2
        duration := i.duration } := by
  intro result after
  obtain ⟨hextra, hlatches, hdefined, hrule⟩ := Operation.plain_of_onBytes h
  set fetches := UInt8.ofNat i.page.fetches
  set length := UInt16.ofNat i.length
  have hrun : (i.plan p.registers).run bus =
      (result.1.onRegisters fun rest => rest.passed fetches length, result.2) := by
    have hfetched : i.fetched p.registers = p.registers.passed fetches length := rfl
    rw [Instruction.plan, hfetched, Operation.plan_passed h, Plan.run_onRegisters]
  have hduration : ∀ effect, i.durationOf effect = i.duration := by
    intro effect
    rw [Instruction.durationOf, Instruction.extraDuration, hextra]
    exact ite_self _
  have hevent : i.event? p.registers.pc = none := by
    rw [Instruction.event?]
    split
    · exact absurd ‹_› hdefined
    · rfl
  have hwz : result.1.registers.wz = p.registers.wz := i.operation.wz_run _ _ _ _
  have hlatch : i.latch p.config.revision p.registers
      (result.1.onRegisters fun rest => rest.passed fetches length) =
        if i.isIndexed then result.1.address else p.registers.wz := by
    rw [Instruction.latch, Operation.latchRule, hrule, ← hwz]
    show LatchRule.apply (if i.isIndexed = true then _ else _) _ _ _ = _
    split <;> rfl
  rw [execute, hrun, hlatches]
  simp only [hduration, hevent, hlatch]
  rfl

/-- The step that takes the given time, leaves the given registers and the given bus, and changes
nothing else: the interrupts that wait go on waiting, and what held them off for one look is used up. -/
def stepTo (p : Processor) (registers : Registers) (bus : β) (duration : Nat) : Step β where
  processor :=
    { p with
      registers
      interrupts := { p.interrupts with deferred := false, held := false }
      ticks := p.ticks.advance duration }
  bus := bus
  duration := duration

/-- A look that finds nothing changes nothing but the latches that last for one look. -/
lemma looked_of_accepts {p : Processor} (h : p.accepts? = none) :
    p.looked = { p with interrupts := { p.interrupts with deferred := false, held := false } } := by
  have hpoll : ∀ (k : Interrupts) (enabled : Bool), (k.poll enabled).1 = none →
      (k.poll enabled).2 = { k with deferred := false, held := false } := by
    intro k enabled hnone
    rcases k with ⟨_ | data, _ | _, _ | _, _ | _⟩ <;> cases enabled <;> simp_all [Interrupts.poll]
  rw [looked, hpoll _ _ h]

/-- The step of an instruction that works on bytes. -/
lemma step_of_onBytes {p : Processor} (h : p.Ready) {bus : β} {i : Instruction}
    (hi : decodeAt bus p.registers.pc = i) (hop : i.operation.onBytes = true) :
    let result := (i.operation.plan i.displacement i.immediate p.registers).run bus
    let after := result.1.registers.passed (UInt8.ofNat i.page.fetches) (UInt16.ofNat i.length)
    p.step bus = p.stepTo
      { after with wz := if i.isIndexed then result.1.address else p.registers.wz }
      result.2 i.duration := by
  intro result after
  rw [step_of_ready h, hi, looked_of_accepts h.accepts, execute_of_onBytes hop]
  rfl

/-- Without indexed memory, the address latch is not touched. -/
lemma step_of_onBytes_plain {p : Processor} (h : p.Ready) {bus : β} {i : Instruction}
    (hi : decodeAt bus p.registers.pc = i) (hop : i.operation.onBytes = true)
    (hplain : i.isIndexed = false) :
    let result := (i.operation.plan i.displacement i.immediate p.registers).run bus
    p.step bus = p.stepTo
      (result.1.registers.passed (UInt8.ofNat i.page.fetches) (UInt16.ofNat i.length))
      result.2 i.duration := by
  intro result
  have hwz : result.1.registers.wz = p.registers.wz := i.operation.wz_run _ _ _ _
  rw [step_of_onBytes h hi hop, hplain, ← hwz]
  rfl

/-- The step of an opcode without a prefix that works on bytes. -/
lemma step_of_main {p : Processor} (h : p.Ready) {bus : β} {op : UInt8} {operation : Operation}
    (hop : MemoryBus.peek bus p.registers.pc = op) (hbare : isPrefix op = false)
    (hoperation : mainOperation none op = operation) (hbytes : operation.onBytes = true) :
    let immediate := immediateValue (MemoryBus.codeAt bus p.registers.pc) 1 operation.immediateSize
    let result := (operation.plan 0 immediate p.registers).run bus
    p.step bus = p.stepTo
      (result.1.registers.passed 1 (UInt16.ofNat (1 + operation.immediateSize)))
      result.2 operation.duration := by
  intro immediate result
  subst hoperation
  set i : Instruction := { page := .main, opcode := op, immediate }
  have hcode : MemoryBus.codeAt bus p.registers.pc 0 = op :=
    (MemoryBus.codeAt_first bus p.registers.pc).trans hop
  have hindexed : i.isIndexed = false := isIndexed_mainOperation_none op
  have hi : decodeAt bus p.registers.pc = i := by
    rw [decodeAt, decode_main (by rw [hcode]; exact hbare),
      decodeFrom_of_plain .main _ 0 (isIndexed_mainOperation_none _), hcode]
    rfl
  have hlength : i.length = 1 + (mainOperation none op).immediateSize := by
    rw [Instruction.length, hindexed]
    rfl
  have hduration : i.duration = (mainOperation none op).duration := Nat.zero_add _
  rw [step_of_onBytes_plain h hi hbytes hindexed, hlength, hduration]
  rfl

end Processor

end Z80

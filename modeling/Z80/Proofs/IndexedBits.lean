import Z80.Proofs.Activity
import Z80.Proofs.ByteArithmetic
import Z80.Proofs.ByteOperation
import Z80.Proofs.Footprint

/-!
# The bit page on indexed memory

Behind two prefixes, an opcode shifts, tests, resets or sets a bit of a byte at a signed distance from an
index register.  It does to that byte and to the flags what the opcode of the bit page for memory at HL
does, if HL and the address latch hold the address (`step_indexedBits`).  What is particular to it is that
the byte which is written is also copied to the register that the opcode names.

Both pages are one operation with different operands, `bitsOperation`.  On memory, what it makes of a byte
depends on the opcode, the flags and the byte whose bits a test shows, and on nothing else
(`run_bitsOperation`).
-/

namespace Z80

/-! ## What an opcode makes of a byte -/

/-- The bit page has four quarters. -/
lemma opcodeX_cases (op : UInt8) :
    opcodeX op = 0 ∨ opcodeX op = 1 ∨ opcodeX op = 2 ∨ opcodeX op = 3 := by
  generalize opcodeX op = x
  revert x
  decide

/-- What an opcode of the bit page makes of a byte `v`: the byte that replaces it, unless it is only
tested, and the flags.  The bit copies of a test are taken from `shown`. -/
def bitsResult (op v shown : UInt8) (f : Flags) : Option UInt8 × Flags :=
  let y := opcodeY op
  match opcodeX op with
  | 0 => (some ((shiftOfCode y).apply v f.c).value, ((shiftOfCode y).apply v f.c).flags)
  | 1 => (none, Arithmetic.testBit y v shown f.c)
  | 2 => (some (Arithmetic.resetBit y v), f)
  | 3 => (some (Arithmetic.setBit y v), f)

/-- The effect of an opcode of the bit page on the byte at `a`, which may be copied to a register. -/
def bitsEffect (k : Registers) (copy : Option ByteRegister) (a : UInt16)
    (made : Option UInt8 × Flags) : Effect :=
  match made.1 with
  | some v =>
    { registers := { k.setByteIf copy v with f := made.2 }, store := .byte a v, address := a }
  | none => { registers := { k with f := made.2 }, address := a }

section Effect

variable (k k' : Registers) (copy copy' : Option ByteRegister) (a : UInt16)
  (made : Option UInt8 × Flags)

@[simp] lemma address_bitsEffect : (bitsEffect k copy a made).address = a := by
  rw [bitsEffect]
  split <;> rfl

@[simp] lemma f_bitsEffect : (bitsEffect k copy a made).registers.f = made.2 := by
  rw [bitsEffect]
  split <;> rfl

/-- Only what is made of the byte tells what is written in its place. -/
lemma store_bitsEffect : (bitsEffect k copy a made).store = (bitsEffect k' copy' a made).store := by
  rw [bitsEffect, bitsEffect]
  split <;> rfl

end Effect

/-- An operation of the bit page on memory reads one byte and does what is made of it. -/
lemma plan_bitsOperation {o : Operand} (ho : o.isRegister = false) {copy : Option ByteRegister}
    (hcopy : o.admitsCopy copy = true) (op : UInt8) (d : Int8) (immediate : UInt16) (k : Registers) :
    (bitsOperation o copy op).plan d immediate k =
      .readByte (o.address d k) fun v =>
        bitsEffect k copy (o.address d k) (bitsResult op v (o.testSource d k v) k.f) := by
  have hread : ∀ next, o.read d k next = .readByte (o.address d k) next := by
    intro next
    cases o with
    | register r => cases ho
    | atHL | atIndex => rfl
  -- The copy does not move the address, and the flags have no part in it.
  have hwrite : ∀ v f, o.write d { k.setByteIf copy v with f } v =
      bitsEffect k copy (o.address d k) (some v, f) := by
    intro v f
    have haddress : o.address d { k.setByteIf copy v with f } = o.address d k :=
      (o.address_fetched d (k.setByteIf copy v) f _ _).trans (o.address_setByteIf d k hcopy v)
    cases o with
    | register r => cases ho
    | atHL | atIndex =>
      rw [Operand.write, haddress]
      rfl
  have hkept : ∀ v, { k.setByteIf copy v with f := k.f } = k.setByteIf copy v := by
    intro v
    rw [← k.f_setByteIf copy v]
  rcases opcodeX_cases op with hX | hX | hX | hX
  · simp only [bitsOperation, bitsResult, hX, Operation.plan, hread]
    exact congrArg _ (funext fun v => hwrite _ _)
  · simp only [bitsOperation, bitsResult, hX, Operation.plan, hread]
    rfl
  all_goals
    simp only [bitsOperation, bitsResult, hX, Operation.plan, hread]
    exact congrArg _ (funext fun v => by rw [← hwrite, hkept])

/-- An opcode of the bit page replaces the byte unless it tests it. -/
lemma bitsResult_eq_none (op v shown : UInt8) (f : Flags) :
    (bitsResult op v shown f).1 = none ↔ op &&& 0xC0 = 0x40 := by
  have htest : ∀ op, opcodeX op = 1 ↔ op &&& 0xC0 = 0x40 := forall_byte (by decide +kernel)
  rw [← htest]
  rcases opcodeX_cases op with hX | hX | hX | hX <;> simp [bitsResult, hX]

/-! ## The two pages -/

set_option maxRecDepth 4000 in
/-- On the bit page, the opcode for memory at HL is the same operation on that memory. -/
lemma operation_bits_atHL (op : UInt8) :
    Page.bits.operation (op &&& 0xF8 ||| 6) = bitsOperation .atHL none op := by
  revert op
  exact forall_byte (by decide +kernel)

set_option maxRecDepth 4000 in
/-- Behind two prefixes, the operation is on indexed memory, and its result is copied to the register
that the opcode names. -/
lemma operation_indexedBits (x : Index) (op : UInt8) :
    (Page.indexedBits x).operation op =
        bitsOperation (.atIndex x) (namedRegister (op &&& 7)) op ∧
      (Operand.atIndex x).admitsCopy (namedRegister (op &&& 7)) = true ∧
      ((Page.indexedBits x).operation op).duration = if op &&& 0xC0 = 0x40 then 16 else 19 := by
  revert op
  refine forall_byte ?_
  cases x <;> decide +kernel

lemma onBytes_bitsOperation (o : Operand) (copy : Option ByteRegister) (op : UInt8) :
    (bitsOperation o copy op).onBytes = true := by
  simp only [bitsOperation]
  split <;> rfl

/-! ## The step -/

section Step

variable {β : Type} [Bus β]

/-- A processor with HL and the address latch at an address. -/
def Processor.pointing (p : Processor) (a : UInt16) : Processor :=
  { p with registers := { p.registers.setHL a with wz := a } }

/-- The step of an opcode of the bit page on indexed memory. -/
lemma step_of_indexedBits {p : Processor} (h : p.Ready) (bus : β) (x : Index) {op d : UInt8}
    (hx : MemoryBus.peek bus p.registers.pc = x.prefixByte)
    (hbits : MemoryBus.peek bus (p.registers.pc + 1) = 0xCB)
    (hd : MemoryBus.peek bus (p.registers.pc + 2) = d)
    (hop : MemoryBus.peek bus (p.registers.pc + 3) = op) :
    let k := p.registers
    let a := displaced (k.index x) d.toInt8
    let m := MemoryBus.read bus a
    let effect := bitsEffect k (namedRegister (op &&& 7)) a (bitsResult op m.1 (high a) k.f)
    p.step bus = p.stepTo { effect.registers.passed 2 4 with wz := a } (effect.store.run m.2)
      (if op &&& 0xC0 = 0x40 then 20 else 23) := by
  intro k a m effect
  set i : Instruction := { page := .indexedBits x, opcode := op, displacement := d.toInt8 }
  obtain ⟨hoperation, hcopy, hduration⟩ := operation_indexedBits x op
  have hi : decodeAt bus p.registers.pc = i := by
    have hcode : MemoryBus.codeAt bus k.pc 0 = x.prefixByte :=
      (MemoryBus.codeAt_first bus k.pc).trans hx
    rw [decodeAt, decode_index x hcode, decodeIndexed_bits x hbits]
    show Instruction.mk (.indexedBits x) (MemoryBus.peek bus (k.pc + 3))
      (MemoryBus.peek bus (k.pc + 2)).toInt8 0 = i
    rw [hop, hd]
  have hbytes : i.operation.onBytes = true := onBytes_bitsOperation _ _ _
  have hindexed : i.isIndexed = true := isIndexed_bitsOperation (.atIndex x) _ op
  have hlength : i.length = 4 := by
    rw [Instruction.length, hindexed]
    show 2 + 1 + true.toNat + (bitsOperation (.atIndex x) _ op).immediateSize = 4
    rw [immediateSize_bitsOperation]
    rfl
  have htime : i.duration = if op &&& 0xC0 = 0x40 then 20 else 23 := by
    show 4 * (2 - 1) + ((Page.indexedBits x).operation op).duration = _
    rw [hduration]
    split <;> rfl
  have hplan : i.operation.plan i.displacement i.immediate k =
      .readByte a fun v => bitsEffect k (namedRegister (op &&& 7)) a (bitsResult op v (high a) k.f) := by
    show ((Page.indexedBits x).operation op).plan d.toInt8 0 k = _
    rw [hoperation, plan_bitsOperation rfl hcopy]
    rfl
  have hrun : (i.operation.plan i.displacement i.immediate k).run bus =
      (effect, effect.store.run m.2) := by
    rw [hplan]
    rfl
  have haddress : effect.address = a := address_bitsEffect k _ a _
  rw [Processor.step_of_onBytes h hi hbytes, hrun, hlength, htime, hindexed, if_pos rfl, haddress]
  rfl

/-- Executing the opcode for memory at HL, where HL and the address latch hold the address. -/
lemma execute_pointing (p : Processor) (bus : β) (a : UInt16) (op : UInt8) :
    let m := MemoryBus.read bus a
    let made := bitsResult op m.1 (high a) p.registers.f
    let plain := (p.pointing a).execute { page := .bits, opcode := op &&& 0xF8 ||| 6 } bus
    plain.processor.registers.f = made.2 ∧
      ∀ copy, plain.bus = (bitsEffect p.registers copy a made).store.run m.2 := by
  intro m made plain
  set k := (p.pointing a).registers
  set i : Instruction := { page := .bits, opcode := op &&& 0xF8 ||| 6 }
  have hl : k.hl = a := word_high_low a
  have hoperation : i.operation = bitsOperation .atHL none op := operation_bits_atHL op
  have hbytes : i.operation.onBytes = true := by
    rw [hoperation]
    exact onBytes_bitsOperation _ _ _
  have hplan : i.operation.plan i.displacement i.immediate k =
      .readByte a fun v => bitsEffect k none a (bitsResult op v (high a) k.f) := by
    rw [hoperation, plan_bitsOperation rfl rfl]
    show Plan.readByte k.hl (fun v => bitsEffect k none k.hl (bitsResult op v (high k.wz) k.f)) = _
    rw [hl]
    rfl
  have hrun : (i.operation.plan i.displacement i.immediate k).run bus =
      (bitsEffect k none a made, (bitsEffect k none a made).store.run m.2) := by
    rw [hplan]
    rfl
  have hplain := Processor.execute_of_onBytes hbytes (p.pointing a) bus
  rw [hrun] at hplain
  rw [show plain = _ from hplain]
  refine ⟨f_bitsEffect k none a made, fun copy => ?_⟩
  show (bitsEffect k none a made).store.run m.2 = _
  rw [store_bitsEffect k p.registers none copy]

/-- **Bits of indexed memory.**  Behind two prefixes, an opcode of the bit page does to the byte at the
signed distance `d` from the index register, and to the flags, what the opcode for memory at HL does when
HL and the address latch hold that address.  A test reads the byte and changes nothing else.  Any other
opcode also copies the byte that it writes to the register that it names, if it names one; H and L are not
the halves of the index register.  The address is left in the address latch, and nothing else changes but
the refresh counter, the program counter and the time. -/
theorem step_indexedBits {p : Processor} (h : p.Ready) (bus : β) (x : Index) {op d : UInt8}
    (hx : MemoryBus.peek bus p.registers.pc = x.prefixByte)
    (hbits : MemoryBus.peek bus (p.registers.pc + 1) = 0xCB)
    (hd : MemoryBus.peek bus (p.registers.pc + 2) = d)
    (hop : MemoryBus.peek bus (p.registers.pc + 3) = op) :
    let k := p.registers
    let a := displaced (k.index x) d.toInt8
    let m := (MemoryBus.read bus a).1
    let atHL : Instruction := { page := .bits, opcode := op &&& 0xF8 ||| 6 }
    let plain := (p.pointing a).execute atHL bus
    (a.toNat : Int) = ((k.index x).toNat + d.toInt8.toInt) % 65536 ∧
    (∀ code : Nat → UInt8, code 0 = 0xCB → code 1 = op &&& 0xF8 ||| 6 → decode code = atHL) ∧
    ∃ changed : Registers,
      p.step bus = p.stepTo
        { ({ changed with f := plain.processor.registers.f }).passed 2 4 with wz := a }
        plain.bus (if op &&& 0xC0 = 0x40 then 20 else 23) ∧
      (op &&& 0xC0 = 0x40 → changed = k ∧ p.accesses bus = #[.read a m]) ∧
      (op &&& 0xC0 ≠ 0x40 → ∃ v, changed = k.setByteIf (namedRegister (op &&& 7)) v ∧
        p.accesses bus = #[.read a m, .write a v]) := by
  intro k a m atHL plain
  set copy := namedRegister (op &&& 7)
  set made := bitsResult op m (high a) k.f
  obtain ⟨hflags, hbus⟩ := execute_pointing p bus a op
  have hwhole := step_of_indexedBits h bus x hx hbits hd hop
  have htraced := step_of_indexedBits h (Traced.start bus) x hx hbits hd hop
  have haccesses : p.accesses bus = ((bitsEffect k copy a made).store.run
      (MemoryBus.read (Traced.start bus) a).2).accesses := by
    rw [Processor.accesses, htraced]
    rfl
  have hdecode : ∀ code : Nat → UInt8, code 0 = 0xCB → code 1 = op &&& 0xF8 ||| 6 →
      decode code = atHL := by
    intro code hfirst hsecond
    have hindexed : (Page.bits.operation (code 1)).isIndexed = false := by
      rw [hsecond, operation_bits_atHL]
      exact isIndexed_bitsOperation _ _ _
    rw [decode_bits hfirst, decodeFrom_of_plain .bits code 1 hindexed, hsecond, operation_bits_atHL,
      immediateSize_bitsOperation]
    rfl
  -- The flags are those of `made` in both cases.
  have hstep (changed : Registers)
      (hchanged : (bitsEffect k copy a made).registers = { changed with f := made.2 }) :
      p.step bus = p.stepTo
        { ({ changed with f := plain.processor.registers.f }).passed 2 4 with wz := a }
        plain.bus (if op &&& 0xC0 = 0x40 then 20 else 23) := by
    rw [hflags, hbus copy, ← hchanged]
    exact hwhole
  refine ⟨toNat_displaced _ d, hdecode, ?_⟩
  by_cases htest : op &&& 0xC0 = 0x40
  · have hnone : made.1 = none := (bitsResult_eq_none _ _ _ _).2 htest
    refine ⟨k, hstep k (by rw [bitsEffect, hnone]), fun _ => ⟨rfl, ?_⟩, fun h => absurd htest h⟩
    rw [haccesses, bitsEffect, hnone]
    rfl
  · have hsome : made.1 ≠ none := fun h => htest ((bitsResult_eq_none _ _ _ _).1 h)
    obtain ⟨v, hv⟩ := Option.ne_none_iff_exists'.1 hsome
    refine ⟨k.setByteIf copy v, hstep _ (by rw [bitsEffect, hv]), fun h => absurd h htest,
      fun _ => ⟨v, rfl, ?_⟩⟩
    rw [haccesses, bitsEffect, hv]
    rfl

/-- A byte below the index register is shifted through the carry, and the result is copied to H itself. -/
theorem step_indexedBits_shift :
    let registers : Registers := { Registers.powerOn with iy := 0x0010, f := Flags.ofByte 0x01 }
    let p : Processor := { registers }
    let memory := (((Memory.zero.write 0 0xFD).write 1 0xCB).write 2 0xF8).write 3 0x14
    let bus : Board := { memory := memory.write 8 0x81 }
    let plain := (p.pointing 8).execute { page := .bits, opcode := 0x16 } bus
    p.Ready ∧ MemoryBus.peek bus p.registers.pc = Index.iy.prefixByte ∧
      MemoryBus.peek bus (p.registers.pc + 1) = 0xCB ∧
      MemoryBus.peek bus (p.registers.pc + 2) = 0xF8 ∧
      MemoryBus.peek bus (p.registers.pc + 3) = 0x14 ∧
      (∃ changed v, p.step bus = p.stepTo
          { ({ changed with f := plain.processor.registers.f }).passed 2 4 with wz := 8 } plain.bus 23 ∧
        changed = registers.setByte .h v ∧ p.accesses bus = #[.read 8 0x81, .write 8 v]) ∧
      (p.step bus).processor.registers =
        { registers with h := 0x03, f := Flags.ofByte 0x05, pc := 4, r := 2, wz := 8 } := by
  intro registers p memory bus plain
  have h : p.Ready := ⟨rfl, rfl⟩
  have hx : MemoryBus.peek bus p.registers.pc = Index.iy.prefixByte := by decide +kernel
  have hbits : MemoryBus.peek bus (p.registers.pc + 1) = 0xCB := by decide +kernel
  have hd : MemoryBus.peek bus (p.registers.pc + 2) = 0xF8 := by decide +kernel
  have hop : MemoryBus.peek bus (p.registers.pc + 3) = 0x14 := by decide +kernel
  have ha : displaced (p.registers.index .iy) (0xF8 : UInt8).toInt8 = 8 := by decide
  have hread : (MemoryBus.read bus 8).1 = 0x81 := by decide +kernel
  obtain ⟨-, -, changed, hstep, -, hcopies⟩ := step_indexedBits h bus .iy hx hbits hd hop
  obtain ⟨v, hchanged, haccesses⟩ := hcopies (by decide)
  rw [ha] at hstep haccesses
  rw [hread] at haccesses
  exact ⟨h, hx, hbits, hd, hop, ⟨changed, v, hstep, hchanged, haccesses⟩, by decide +kernel⟩

end Step

end Z80

import Z80.Proofs.Opcode
import Z80.Proofs.Step

/-!
# Index prefixes exchange HL with an index register

An opcode that does not use the memory at HL means the same behind an index prefix as without it,
with the index register in the place of HL.  This file makes that a law about whole steps: a step
with the prefix is the step of the bare opcode between two exchanges of HL with the index register,
one opcode fetch and four T-states longer (`step_prefixed`).  The two opcodes that exchange HL with
other registers ignore the prefix, so for them the law holds without the exchanges.

The proof follows the exchange through an instruction.  `Operation.exchange` renames the operands of
an operation, and `plan_exchange` says that the renamed operation does on exchanged registers what
the operation does on the registers themselves.
-/

namespace Z80

/-! ## Exchanging HL with an index register -/

namespace Registers

/-- Exchanges HL with an index register, if one is given. -/
def exchangeHL (k : Registers) : Option Index → Registers
  | none => k
  | some x => (k.setHL (k.index x)).setIndex x k.hl

/-- What an index prefix makes of the registers: HL has changed its place with the index register,
if one is given, and one more opcode fetch has been counted. -/
def prefixed (k : Registers) (y : Option Index) : Registers :=
  (k.exchangeHL y).advanceRefresh 1

end Registers

/-- The name of a byte register after the exchange. -/
def ByteRegister.exchange (r : ByteRegister) : Option Index → ByteRegister
  | none => r
  | some x =>
    match r with
    | .h => .indexHigh x
    | .l => .indexLow x
    | .indexHigh z => if z = x then .h else r
    | .indexLow z => if z = x then .l else r
    | _ => r

/-- The name of a pair after the exchange. -/
def Pair.exchange (p : Pair) : Option Index → Pair
  | none => p
  | some x =>
    match p with
    | .hl => .index x
    | .index z => if z = x then .hl else p
    | _ => p

/-- The name of an operand after the exchange, where memory keeps its name. -/
def Operand.exchange (o : Operand) (y : Option Index) : Operand :=
  match o with
  | .register r => .register (r.exchange y)
  | .atHL | .atIndex _ => o

/-- The operation with its operands renamed by the exchange. -/
def Operation.exchange (op : Operation) (y : Option Index) : Operation :=
  match op with
  | .exchangeTop p => .exchangeTop (p.exchange y)
  | .load target source => .load (target.exchange y) (source.exchange y)
  | .loadImmediate target => .loadImmediate (target.exchange y)
  | .loadPairImmediate p => .loadPairImmediate (p.exchange y)
  | .loadPair p => .loadPair (p.exchange y)
  | .storePair p => .storePair (p.exchange y)
  | .loadStackPointer p => .loadStackPointer (p.exchange y)
  | .push p => .push (p.exchange y)
  | .pop p => .pop (p.exchange y)
  | .increment o => .increment (o.exchange y)
  | .decrement o => .decrement (o.exchange y)
  | .combine operator source => .combine operator (source.exchange y)
  | .incrementPair p => .incrementPair (p.exchange y)
  | .decrementPair p => .decrementPair (p.exchange y)
  | .addPair target source => .addPair (target.exchange y) (source.exchange y)
  | .jumpTo p => .jumpTo (p.exchange y)
  | op => op

/-- Whether an operation reaches HL through its operands only, so that the exchange can be followed
by renaming them.  The exchanges of HL with DE and with the shadow bank can be followed if there is
nothing to rename. -/
def Operation.isRenamed (op : Operation) (y : Option Index) : Bool :=
  match op with
  | .exchangeMain | .exchangeDEHL => y.isNone
  | .load target source => target.isRegister && source.isRegister
  | .loadImmediate o | .increment o | .decrement o | .combine _ o => o.isRegister
  | .nop | .halt | .disableInterrupts | .enableInterrupts | .exchangeAF | .exchangeTop _
  | .loadAccumulator _ | .storeAccumulator _ | .loadPairImmediate _ | .loadPair _ | .storePair _
  | .loadStackPointer _ | .push _ | .pop _ | .combineImmediate _ | .decimalAdjust | .complement
  | .setCarry | .complementCarry | .incrementPair _ | .decrementPair _ | .addPair _ _
  | .shiftAccumulator _ | .jump | .jumpIf _ | .jumpTo _ | .jumpRelative | .jumpRelativeIf _
  | .countAndJump | .call | .callIf _ | .ret | .retIf _ | .restart _ | .inputAccumulator
  | .outputAccumulator => true
  | _ => false

/-- What an index prefix exchanges HL with for the given opcode: nothing for the two opcodes that
exchange HL themselves. -/
def exchangedBy (x : Index) (op : UInt8) : Option Index :=
  if op = 0xEB ∨ op = 0xD9 then none else some x

set_option maxRecDepth 4000 in
/-- Behind an index prefix, an opcode that does not use memory at HL is its operation with the
operands renamed. -/
lemma mainOperation_exchange (x : Index) (op : UInt8) (hopcode : isPrefix op = false)
    (hmemory : usesMemory op = false) :
    mainOperation (some x) op = (mainOperation none op).exchange (exchangedBy x op) ∧
      (mainOperation none op).isRenamed (exchangedBy x op) = true := by
  revert op
  refine forall_byte ?_
  cases x <;> decide +kernel

/-! ## Registers under the exchange -/

namespace Registers

variable (k : Registers)

/-- The exchange undoes itself. -/
@[simp] lemma exchangeHL_exchangeHL (y : Option Index) : (k.exchangeHL y).exchangeHL y = k := by
  rcases y with _ | _ | _
  · rfl
  · simp [exchangeHL, setHL, setIndex, index, Bank.hl]
  · simp [exchangeHL, setHL, setIndex, index, Bank.hl]

/-- A byte is found under its new name. -/
@[simp] lemma byte_prefixed (y : Option Index) (r : ByteRegister) :
    (k.prefixed y).byte (r.exchange y) = k.byte r := by
  rcases y with _ | _ | _
  · cases r with
    | indexHigh z | indexLow z => cases z <;> rfl
    | _ => rfl
  all_goals
    cases r with
    | h => exact high_word _ _
    | l => exact low_word _ _
    | indexHigh z | indexLow z => cases z <;> rfl
    | _ => rfl

/-- A pair is found under its new name. -/
@[simp] lemma pair_prefixed (y : Option Index) (p : Pair) :
    (k.prefixed y).pair (p.exchange y) = k.pair p := by
  rcases y with _ | _ | _
  · cases p with
    | index z => cases z <;> rfl
    | _ => rfl
  all_goals
    cases p with
    | hl => rfl
    | index z => cases z <;> first | exact word_high_low _ | rfl
    | _ => rfl

/-- A byte is written under its new name. -/
@[simp] lemma setByte_prefixed (y : Option Index) (r : ByteRegister) (v : UInt8) :
    (k.prefixed y).setByte (r.exchange y) v = (k.setByte r v).prefixed y := by
  rcases y with _ | _ | _
  · cases r with
    | indexHigh z | indexLow z => cases z <;> rfl
    | _ => rfl
  all_goals
    cases r with
    | h | l =>
      simp [prefixed, exchangeHL, advanceRefresh, setByte, ByteRegister.exchange, setIndex, setHL,
        index, Bank.hl]
    | indexHigh z | indexLow z =>
      cases z <;>
        simp [prefixed, exchangeHL, advanceRefresh, setByte, ByteRegister.exchange, setIndex,
          setHL, index, Bank.hl]
    | _ => rfl

/-- A pair is written under its new name. -/
@[simp] lemma setPair_prefixed (y : Option Index) (p : Pair) (v : UInt16) :
    (k.prefixed y).setPair (p.exchange y) v = (k.setPair p v).prefixed y := by
  rcases y with _ | _ | _
  · cases p with
    | index z => cases z <;> rfl
    | _ => rfl
  all_goals
    cases p with
    | hl =>
      simp [prefixed, exchangeHL, advanceRefresh, setPair, Pair.exchange, setIndex, setHL, index,
        Bank.hl]
    | index z =>
      cases z <;>
        simp [prefixed, exchangeHL, advanceRefresh, setPair, Pair.exchange, setIndex, setHL, index,
          Bank.hl]
    | _ => rfl

end Registers

/-! ## Plans under the exchange

What a plan does beside reading and writing its operands does not meet the exchange: the other
registers, the flags, jumps, calls and the stack.
-/

namespace Registers

variable (k : Registers) (y : Option Index)

@[simp] lemma a_prefixed : (k.prefixed y).a = k.a := by
  rcases y with _ | _ | _ <;> rfl

@[simp] lemma f_prefixed : (k.prefixed y).f = k.f := by
  rcases y with _ | _ | _ <;> rfl

@[simp] lemma b_prefixed : (k.prefixed y).b = k.b := by
  rcases y with _ | _ | _ <;> rfl

@[simp] lemma sp_prefixed : (k.prefixed y).sp = k.sp := by
  rcases y with _ | _ | _ <;> rfl

lemma setB_prefixed (v : UInt8) :
    { k.prefixed y with b := v } = ({ k with b := v }).prefixed y := by
  rcases y with _ | _ | _ <;> rfl

lemma setFlags_prefixed (f : Flags) : { k.prefixed y with f } = ({ k with f }).prefixed y := by
  rcases y with _ | _ | _ <;> rfl

@[simp] lemma setResult_prefixed (result : Result) :
    (k.prefixed y).setResult result = (k.setResult result).prefixed y := by
  rcases y with _ | _ | _ <;> rfl

@[simp] lemma jumpIf_prefixed (target : UInt16) (taken : Bool) :
    (k.prefixed y).jumpIf target taken =
      (k.jumpIf target taken).onRegisters fun rest => rest.prefixed y := by
  cases taken with
  | false => rfl
  | true => rcases y with _ | _ | _ <;> rfl

@[simp] lemma jumpRelativeIf_prefixed (e : UInt8) (taken : Bool) :
    (k.prefixed y).jumpRelativeIf e taken =
      (k.jumpRelativeIf e taken).onRegisters fun rest => rest.prefixed y := by
  have hpc : (k.prefixed y).pc = k.pc := by rcases y with _ | _ | _ <;> rfl
  rw [jumpRelativeIf, hpc, jumpIf_prefixed]
  rfl

@[simp] lemma callIf_prefixed (target : UInt16) (taken : Bool) :
    (k.prefixed y).callIf target taken =
      (k.callIf target taken).onRegisters fun rest => rest.prefixed y := by
  cases taken with
  | false => rfl
  | true => rcases y with _ | _ | _ <;> rfl

@[simp] lemma push_prefixed (v : UInt16) :
    (k.prefixed y).push v = (k.push v).onRegisters fun rest => rest.prefixed y := by
  rcases y with _ | _ | _ <;> rfl

@[simp] lemma pop_prefixed (next : UInt16 → Registers → Effect) :
    (k.prefixed y).pop next = k.pop fun v rest => next v (rest.prefixed y) := by
  rcases y with _ | _ | _ <;> rfl

@[simp] lemma ret_prefixed :
    (k.prefixed y).ret = k.ret.onRegisters fun rest => rest.prefixed y := by
  rcases y with _ | _ | _ <;> rfl

end Registers

open Registers in
/-- On exchanged registers, the renamed operation does what the operation does on the registers
themselves. -/
lemma Operation.plan_exchange (op : Operation) (y : Option Index) (h : op.isRenamed y = true)
    (d : Int8) (immediate : UInt16) (k : Registers) :
    (op.exchange y).plan d immediate (k.prefixed y) =
      (op.plan d immediate k).onRegisters fun rest => rest.prefixed y := by
  cases op with
  | exchangeMain | exchangeDEHL =>
    rcases y with _ | x
    · rfl
    · cases h
  | exchangeTop p | loadPair p | storePair p | loadPairImmediate p | incrementPair p
  | decrementPair p =>
    simp only [exchange, plan, setPair_prefixed, pair_prefixed, sp_prefixed]
    rfl
  | push p =>
    simp only [exchange, plan, pair_prefixed, push_prefixed]
    rfl
  | pop p =>
    simp only [exchange, plan, setPair_prefixed, pop_prefixed]
    rfl
  | loadStackPointer p | jumpTo p =>
    simp only [exchange, plan, pair_prefixed]
    rcases y with _ | _ | _ <;> rfl
  | addPair target source =>
    simp only [exchange, plan, pair_prefixed, setPair_prefixed, f_prefixed]
    rcases y with _ | _ | _ <;> rfl
  | load target source =>
    cases target with
    | register target =>
      cases source with
      | register source =>
        simp only [exchange, plan, Operand.exchange, Operand.read, Operand.write, byte_prefixed,
          setByte_prefixed]
        rfl
      | _ => cases h
    | _ => cases h
  | combine _ o =>
    cases o with
    | register r =>
      simp only [exchange, plan, Operand.exchange, Operand.read, byte_prefixed, a_prefixed,
        f_prefixed, setResult_prefixed]
      rfl
    | _ => cases h
  | loadImmediate o | increment o | decrement o =>
    cases o with
    | register r =>
      simp only [exchange, plan, Operand.exchange, Operand.read, Operand.write, byte_prefixed,
        f_prefixed, setFlags_prefixed, setByte_prefixed]
      rfl
    | _ => cases h
  | jumpRelative =>
    simp only [exchange, plan, jumpRelativeIf_prefixed]
    rfl
  | jumpIf condition | jumpRelativeIf condition | callIf condition =>
    simp only [exchange, plan, f_prefixed, jumpIf_prefixed, jumpRelativeIf_prefixed,
      callIf_prefixed]
    rfl
  | countAndJump =>
    simp only [exchange, plan, b_prefixed, setB_prefixed, jumpRelativeIf_prefixed]
    rfl
  | retIf condition =>
    simp only [exchange, plan, f_prefixed, ret_prefixed]
    split <;> rfl
  | _ => rcases y with _ | _ | _ <;> first | exact absurd h Bool.false_ne_true | rfl

/-! ## Renaming changes nothing else -/

@[simp] lemma Operand.duration_exchange (o : Operand) (y : Option Index) (r m d : Nat) :
    (o.exchange y).duration r m d = o.duration r m d := by
  cases o <;> rfl

namespace Operation

variable (op : Operation) (y : Option Index)

@[simp] lemma immediateSize_exchange : (op.exchange y).immediateSize = op.immediateSize := by
  cases op <;> rfl

@[simp] lemma latchInterrupts_exchange (waiting : Interrupts) :
    (op.exchange y).latchInterrupts waiting = op.latchInterrupts waiting := by
  cases op <;> rfl

@[simp] lemma duration_exchange : (op.exchange y).duration = op.duration := by
  cases op <;> simp [exchange, duration]

@[simp] lemma extraDuration_exchange : (op.exchange y).extraDuration = op.extraDuration := by
  cases op <;> rfl

/-- Renaming keeps what an operation leaves in the address latch, which does not depend on where its
first byte is. -/
lemma apply_latchRule_exchange (h : op.isRenamed y = true) (revision : Revision)
    (inputs : LatchInputs) (pc current : UInt16) :
    (op.exchange y).latchRule.apply revision inputs current =
      op.latchRule.apply revision { inputs with pc } current := by
  cases op with
  | load target source =>
    cases target with
    | register target =>
      cases source with
      | register source => rfl
      | _ => cases h
    | _ => cases h
  | loadImmediate o | increment o | decrement o | combine _ o =>
    cases o with
    | register r => rfl
    | _ => cases h
  | _ => first | rfl | cases h

end Operation

/-! ## Instructions under the exchange -/

/-- The registers from which the bare opcode is executed: HL has changed its place with the index
register, and the program counter has passed the prefix. -/
def Registers.skipPrefix (k : Registers) (y : Option Index) : Registers :=
  { k.exchangeHL y with pc := k.pc + 1 }

/-- Counting two fetches is counting one twice. -/
lemma Registers.advanceRefresh_two (k : Registers) :
    k.advanceRefresh 2 = (k.advanceRefresh 1).advanceRefresh 1 :=
  (k.advanceRefresh_advanceRefresh 1 1).symm

/-- The instruction `i` is `j` behind an index prefix: it has the operation of `j` with its operands
renamed, the same immediate value, one more byte and one more opcode fetch. -/
structure Instruction.Prefixed (i j : Instruction) (y : Option Index) : Prop where
  /-- The operation is the renamed one. -/
  operation : i.operation = j.operation.exchange y
  /-- The operation can be renamed. -/
  renamed : j.operation.isRenamed y = true
  /-- The displacement stays. -/
  displacement : i.displacement = j.displacement
  /-- The immediate value stays. -/
  immediate : i.immediate = j.immediate
  /-- The prefix is one byte longer. -/
  length : i.length = j.length + 1
  /-- The prefix and the opcode are fetched. -/
  fetches : i.page.fetches = 2
  /-- The bare opcode is fetched. -/
  bareFetches : j.page.fetches = 1

namespace Instruction

variable {i j : Instruction} {y : Option Index} (h : i.Prefixed j y) (k : Registers)

include h

/-- The fetch of the prefix and the opcode is that of the opcode, and one more. -/
lemma fetched_prefixed : i.fetched k = (j.fetched (k.skipPrefix y)).prefixed y := by
  have hpc : k.pc + UInt16.ofNat (j.length + 1) = k.pc + 1 + UInt16.ofNat j.length := by
    rw [UInt16.ofNat_add]
    grind
  let fetchedOnce : Registers :=
    { k.advanceRefresh 1 with pc := k.pc + 1 + UInt16.ofNat j.length }
  calc i.fetched k
      = { k.advanceRefresh 2 with pc := k.pc + 1 + UInt16.ofNat j.length } := by
        rw [fetched, h.fetches, h.length, hpc]
        rfl
    _ = fetchedOnce.advanceRefresh 1 := by
        rw [k.advanceRefresh_two]
        rfl
    _ = (fetchedOnce.exchangeHL y).prefixed y := by
        rw [Registers.prefixed, Registers.exchangeHL_exchangeHL]
    _ = (j.fetched (k.skipPrefix y)).prefixed y := by
        rw [fetched, h.bareFetches]
        rcases y with _ | _ | _ <;> rfl

/-- The plan behind the prefix is that of the bare opcode, on exchanged registers. -/
lemma plan_prefixed :
    i.plan k = (j.plan (k.skipPrefix y)).onRegisters fun rest => rest.prefixed y := by
  rw [plan, h.operation, h.displacement, h.immediate, fetched_prefixed h,
    Operation.plan_exchange _ _ h.renamed]
  rfl

/-- The latch behind the prefix is that of the bare opcode. -/
lemma latch_prefixed (revision : Revision) (effect : Effect) :
    i.latch revision k (effect.onRegisters fun rest => rest.prefixed y) =
      j.latch revision (k.skipPrefix y) effect := by
  rw [latch, h.operation, Operation.apply_latchRule_exchange _ _ h.renamed _ _ (k.pc + 1)]
  rcases y with _ | _ | _ <;> rfl

/-- The prefix takes four T-states. -/
lemma durationOf_prefixed (change : Registers → Registers) (effect : Effect) :
    i.durationOf (effect.onRegisters change) = j.durationOf effect + 4 := by
  have hduration : i.duration = j.duration + 4 := by
    rw [duration, duration, h.fetches, h.bareFetches, h.operation, Operation.duration_exchange]
    omega
  have hextra : i.extraDuration = j.extraDuration := by
    rw [extraDuration, extraDuration, h.operation, Operation.extraDuration_exchange]
  cases htaken : effect.taken with
  | true =>
    simp only [durationOf, Effect.onRegisters, htaken, if_true]
    omega
  | false =>
    simp only [durationOf, Effect.onRegisters, htaken, Bool.false_eq_true, if_false]
    omega

/-- Neither instruction is without a meaning. -/
lemma event?_prefixed (pc pc' : UInt16) : i.event? pc = j.event? pc' := by
  have hrenamed := h.renamed
  rw [event?, event?, h.operation]
  cases hj : j.operation with
  | undefined =>
    rw [hj] at hrenamed
    cases hrenamed
  | _ => rfl

end Instruction

section Decoding

variable {β : Type} [MemoryBus β] (bus : β) (pc : UInt16)

/-- The bytes from the next address on are those after the first one. -/
lemma codeAt_add_one (n : Nat) :
    MemoryBus.codeAt bus (pc + 1) n = MemoryBus.codeAt bus pc (n + 1) := by
  have haddress : pc + 1 + UInt16.ofNat n = pc + UInt16.ofNat (n + 1) := by
    rw [UInt16.ofNat_add]
    grind
  rw [MemoryBus.codeAt, MemoryBus.codeAt, haddress]

/-- An immediate value is found one byte further behind a prefix. -/
lemma immediateValue_codeAt_add_one (start size : Nat) :
    immediateValue (MemoryBus.codeAt bus (pc + 1)) start size =
      immediateValue (MemoryBus.codeAt bus pc) (start + 1) size := by
  unfold immediateValue
  simp only [codeAt_add_one]

/-- The instruction at an index prefix is the one at the next address behind the prefix, if that
does not use memory at HL. -/
lemma prefixed_decodeAt (x : Index) (hx : MemoryBus.peek bus pc = x.prefixByte)
    (hopcode : isPrefix (MemoryBus.peek bus (pc + 1)) = false)
    (hmemory : usesMemory (MemoryBus.peek bus (pc + 1)) = false) :
    (decodeAt bus pc).Prefixed (decodeAt bus (pc + 1))
      (exchangedBy x (MemoryBus.peek bus (pc + 1))) := by
  set op := MemoryBus.peek bus (pc + 1)
  have hindexed : (mainOperation (some x) op).isIndexed = false :=
    (isIndexed_mainOperation x op).trans hmemory
  have hbare : (mainOperation none op).isIndexed = false := isIndexed_mainOperation_none op
  obtain ⟨hoperation, hrenamed⟩ := mainOperation_exchange x op hopcode hmemory
  have hcode : MemoryBus.codeAt bus pc 0 = x.prefixByte := by simpa [MemoryBus.codeAt] using hx
  have hbareCode : MemoryBus.codeAt bus (pc + 1) 0 = op := codeAt_add_one bus pc 0
  have hi : decodeAt bus pc =
      { page := .indexed x
        opcode := op
        immediate := immediateValue (MemoryBus.codeAt bus pc) 2
          (mainOperation (some x) op).immediateSize } := by
    rw [decodeAt, decode_index x hcode, decodeIndexed_main x hopcode]
    exact decodeFrom_of_plain _ _ 1 hindexed
  have hj : decodeAt bus (pc + 1) =
      { page := .main
        opcode := op
        immediate := immediateValue (MemoryBus.codeAt bus (pc + 1)) 1
          (mainOperation none op).immediateSize } := by
    rw [← hbareCode] at hopcode hbare ⊢
    rw [decodeAt, decode_main hopcode]
    exact decodeFrom_of_plain _ _ 0 hbare
  have hsize : (mainOperation (some x) op).immediateSize =
      (mainOperation none op).immediateSize := by
    rw [hoperation, Operation.immediateSize_exchange]
  rw [hi, hj]
  refine ⟨hoperation, hrenamed, rfl, ?_, ?_, rfl, rfl⟩
  · rw [hsize, immediateValue_codeAt_add_one]
  · show 1 + 1 + (mainOperation (some x) op).isIndexed.toNat +
      (mainOperation (some x) op).immediateSize =
        0 + 1 + (mainOperation none op).isIndexed.toNat + (mainOperation none op).immediateSize + 1
    rw [hindexed, hbare, hsize]
    omega

end Decoding

/-! ## Steps under the exchange -/

/-- The processor at the bare opcode, with HL exchanged. -/
def Processor.skipPrefix (p : Processor) (y : Option Index) : Processor :=
  { p with registers := p.registers.skipPrefix y }

/-- The step that an index prefix makes of a step of the bare opcode: HL is exchanged back, one more
opcode fetch is counted, and four more T-states have passed. -/
def Step.prefixed {β : Type} (s : Step β) (y : Option Index) : Step β where
  processor :=
    { s.processor with
      registers := (s.processor.registers.exchangeHL y).advanceRefresh 1
      ticks := s.processor.ticks.advance 4 }
  bus := s.bus
  duration := s.duration + 4
  event := s.event

/-- Executing an instruction behind the prefix is executing the bare one between two exchanges. -/
lemma Processor.execute_prefixed {β : Type} [Bus β] {i j : Instruction} {y : Option Index}
    (h : i.Prefixed j y) (p : Processor) (bus : β) :
    p.execute i bus = ((p.skipPrefix y).execute j bus).prefixed y := by
  have hlatch := Instruction.latch_prefixed h p.registers p.config.revision
  have hevent := Instruction.event?_prefixed h p.registers.pc (p.registers.pc + 1)
  have hduration := Instruction.durationOf_prefixed h
  have hticks : ∀ n, p.ticks.advance (n + 4) = (p.ticks.advance n).advance 4 :=
    fun n => (Nat.add_assoc p.ticks n 4).symm
  simp only [execute, Instruction.plan_prefixed h, Plan.run_onRegisters, hlatch, hevent, hduration,
    hticks, h.operation, Operation.latchInterrupts_exchange]
  rcases y with _ | _ | _ <;> rfl

/-- **The law of index prefixes.**  A step with an index prefix before an opcode that is no prefix
and does not use memory at HL is the step of the bare opcode between two exchanges of HL with the
index register (or, for the two opcodes that exchange HL themselves, without them), with one more
opcode fetch and four more T-states. -/
theorem step_prefixed {β : Type} [Bus β] {p : Processor} (h : p.Ready) (bus : β) (x : Index)
    (hx : MemoryBus.peek bus p.registers.pc = x.prefixByte)
    (hopcode : isPrefix (MemoryBus.peek bus (p.registers.pc + 1)) = false)
    (hmemory : usesMemory (MemoryBus.peek bus (p.registers.pc + 1)) = false) :
    let y := exchangedBy x (MemoryBus.peek bus (p.registers.pc + 1))
    p.step bus = ((p.skipPrefix y).step bus).prefixed y := by
  intro y
  have hready : (p.skipPrefix y).Ready := by
    refine ⟨?_, ?_⟩
    · rw [← h.accepts]
      rcases y with _ | _ | _ <;> rfl
    · rw [← h.halted]
      rcases y with _ | _ | _ <;> rfl
  have hlooked : (p.skipPrefix y).looked = p.looked.skipPrefix y := by
    rcases y with _ | _ | _ <;> rfl
  rw [Processor.step_of_ready h, Processor.step_of_ready hready, hlooked,
    Processor.execute_prefixed (prefixed_decodeAt bus _ x hx hopcode hmemory)]
  rfl

/-- Incrementing the high half of IX is incrementing H between two exchanges. -/
theorem step_prefixed_increment :
    let p : Processor := {}
    let board : Board := { memory := (Memory.zero.write 0 0xDD).write 1 0x24 }
    p.Ready ∧ p.step board = ((p.skipPrefix (some .ix)).step board).prefixed (some .ix) := by
  intro p board
  have h : p.Ready := ⟨rfl, rfl⟩
  have hx : MemoryBus.peek board p.registers.pc = Index.ix.prefixByte := by
    simp [board, p, MemoryBus.peek, Registers.powerOn, Memory.read_write, Index.prefixByte]
  have hop : MemoryBus.peek board (p.registers.pc + 1) = 0x24 := by
    simp [board, p, MemoryBus.peek, Registers.powerOn, Memory.read_write]
  have hstep := step_prefixed h board .ix hx (by rw [hop]; decide) (by rw [hop]; decide)
  rw [hop] at hstep
  exact ⟨h, hstep⟩

end Z80

import Z80.Bus.Traced
import Z80.Proofs.Refresh

/-!
# Time for what passes on the bus

Every opcode fetch takes four T-states, every further byte of an instruction three, every byte of
memory that is read or written three, and every byte that passes through a port four.  No step is
shorter than all of that together (`busTime_le_duration`).

The accesses of a step are those that a bus which keeps a record notes; the record does not disturb the
step (`Processor.step_traced`).  A plan reads one value and sends one, so the time of its accesses is
told by the plan and by its effect, without a bus (`Plan.readTime`, `Store.time`).  What is left is a
property of the single operation, `Operation.busTime_le`.
-/

namespace Z80

/-! ## Accesses -/

/-- Whether an access goes to memory. -/
def Access.isMemory : Access → Bool
  | .read _ _ | .write _ _ => true
  | .input _ _ | .output _ _ => false

/-- Whether an access goes to a port. -/
def Access.isPort : Access → Bool
  | .read _ _ | .write _ _ => false
  | .input _ _ | .output _ _ => true

/-- The time that an access takes. -/
def Access.time : Access → Nat
  | .read _ _ | .write _ _ => 3
  | .input _ _ | .output _ _ => 4

namespace Traced

variable {β : Type} (t : Traced β)

/-- The time that the noted accesses take. -/
def time : Nat :=
  3 * t.accesses.countP Access.isMemory + 4 * t.accesses.countP Access.isPort

@[simp] lemma time_note (bus : β) (access : Access) :
    (t.note bus access).time = t.time + access.time := by
  cases access <;>
    simp [time, note, Array.countP_push, Access.isMemory, Access.isPort, Access.time] <;> omega

end Traced

/-- The time of the accesses that a store makes. -/
def Store.time : Store → Nat
  | .nothing => 0
  | .byte _ _ => 3
  | .word _ _ | .push _ _ => 6
  | .port _ _ => 4

/-- The time of the accesses with which a plan reads. -/
def Plan.readTime : Plan → Nat
  | .done _ => 0
  | .readByte _ _ => 3
  | .readWord _ _ => 6
  | .readPort _ _ => 4

section Bus

variable {β : Type} [Bus β] (t : Traced β)

lemma Store.time_run (s : Store) : (s.run t).time = t.time + s.time := by
  cases s <;> simp [run, time, MemoryBus.write, MemoryBus.writeWord, MemoryBus.pushWord, Bus.output,
    Access.time]

lemma Plan.time_fetch (p : Plan) : (p.fetch t).2.time = t.time + p.readTime := by
  cases p <;> simp [fetch, readTime, MemoryBus.read, MemoryBus.readWord, Bus.input, Access.time]

/-- The accesses of a plan are those of its reading and of its store. -/
lemma Plan.time_run (p : Plan) :
    (p.run t).2.time = t.time + p.readTime + (p.run t).1.store.time := by
  rw [run, Store.time_run, time_fetch]

end Bus

/-! ## Operations -/

/-- The time that passes at least while what follows the opcode is read: three T-states for each
byte, and five more to find indexed memory, during which an immediate byte is read as well. -/
def Operation.operandTime (op : Operation) : Nat :=
  if op.isIndexed = true then 8 else 3 * op.immediateSize

lemma Operation.immediateSize_of_isIndexed (op : Operation) (h : op.isIndexed = true) :
    op.immediateSize ≤ 1 := by
  cases op with
  | loadImmediate | load | increment | decrement | combine | shift | testBit | resetBit | setBit =>
    exact Nat.le_of_ble_eq_true rfl
  | _ => cases h

/-- The bytes of an instruction that are not fetched as opcodes take no more than that. -/
lemma Instruction.operandBytes_le (i : Instruction) :
    3 * (i.length - i.page.fetches) ≤ i.operation.operandTime := by
  have hplain (hfetches : i.page.prefixLength + 1 = i.page.fetches) :
      3 * (i.length - i.page.fetches) ≤ i.operation.operandTime := by
    have hsize := i.operation.immediateSize_of_isIndexed
    rw [length, isIndexed, hfetches, Operation.operandTime]
    cases hindexed : i.operation.isIndexed with
    | false => simp
    | true =>
      have hone := hsize hindexed
      rw [if_pos rfl, Bool.toNat_true]
      omega
  cases hpage : i.page with
  | indexedBits x =>
    have hop : i.operation =
        bitsOperation (.atIndex x) (registerOfCode? none (opcodeZ i.opcode)) i.opcode := by
      rw [operation, hpage]
      rfl
    rw [length, isIndexed, Operation.operandTime, hpage, hop, isIndexed_bitsOperation,
      immediateSize_bitsOperation]
    exact Nat.le_of_ble_eq_true rfl
  | _ => exact hpage ▸ hplain (by rw [hpage]; rfl)

/-- What an operation reads and sends fits into its time, beside the fetch of its opcode and the bytes
after it. -/
lemma Operation.busTime_le (op : Operation) (huses : op.usesRegister = true) (d : Int8)
    (immediate : UInt16) (k : Registers) (board : Board) :
    let plan := op.plan d immediate k
    let effect := plan.outcome board
    4 + op.operandTime + plan.readTime + effect.store.time ≤
      op.duration + if effect.taken = true then op.extraDuration else 0 := by
  intro plan effect
  -- Only a call and a return on a condition need the time that is added when they are made.
  have hplain (h : 4 + op.operandTime + plan.readTime + effect.store.time ≤ op.duration) :
      4 + op.operandTime + plan.readTime + effect.store.time ≤
        op.duration + if effect.taken = true then op.extraDuration else 0 :=
    h.trans (Nat.le_add_right _ _)
  cases op with
  | callIf condition =>
    have htime : (k.callIf immediate (condition.holds k.f)).store.time ≤
        if (k.callIf immediate (condition.holds k.f)).taken = true then 7 else 0 := by
      cases condition.holds k.f <;> exact Nat.le_of_ble_eq_true rfl
    exact Nat.add_le_add (Nat.le_refl 10) htime
  | retIf condition =>
    by_cases hholds : condition.holds k.f = true
    · have hplan : plan = k.ret := if_pos hholds
      simp only [effect, hplan]
      exact Nat.le_of_ble_eq_true rfl
    · have hplan : plan = .done { registers := k } := if_neg hholds
      simp only [effect, hplan]
      exact Nat.le_of_ble_eq_true rfl
  | load target source =>
    refine hplain ?_
    cases target <;> cases source
    case register.register | register.atHL | register.atIndex | atHL.register | atIndex.register =>
      exact Nat.le_of_ble_eq_true rfl
    all_goals exact absurd huses Bool.false_ne_true
  | loadImmediate o | increment o | decrement o | combine _ o | shift _ o _ | testBit _ o
  | resetBit _ o _ | setBit _ o _ => cases o <;> exact hplain (Nat.le_of_ble_eq_true rfl)
  | loadAccumulator p | storeAccumulator p => cases p <;> exact hplain (Nat.le_of_ble_eq_true rfl)
  | _ => exact hplain (Nat.le_of_ble_eq_true rfl)

/-- What an instruction reads and sends fits into its time, beside its bytes. -/
lemma Instruction.busTime_le {β : Type} [Bus β] (i : Instruction) (k : Registers) (bus : β) :
    4 * i.page.fetches + 3 * (i.length - i.page.fetches) + (i.plan k).readTime +
      ((i.plan k).run bus).1.store.time ≤ i.durationOf ((i.plan k).run bus).1 := by
  obtain ⟨board, houtcome⟩ := (i.plan k).exists_outcome bus
  have huses : i.operation.usesRegister = true := usesRegister_operation i.page i.opcode
  have hoperation : 4 + i.operation.operandTime + (i.plan k).readTime +
      ((i.plan k).outcome board).store.time ≤ i.operation.duration +
        if ((i.plan k).outcome board).taken = true then i.operation.extraDuration else 0 :=
    i.operation.busTime_le huses i.displacement i.immediate (i.fetched k) board
  have hoperand := i.operandBytes_le
  have hfetches : 1 ≤ i.page.fetches := by
    cases i.page <;> exact Nat.le_of_ble_eq_true rfl
  have hduration : i.durationOf ((i.plan k).outcome board) = 4 * (i.page.fetches - 1) +
      (i.operation.duration +
        if ((i.plan k).outcome board).taken = true then i.operation.extraDuration else 0) := by
    rw [durationOf, duration, extraDuration]
    split <;> omega
  rw [← houtcome, hduration]
  omega

/-- Accepting an interrupt fits into its time: a fetch, the word that is put on the stack and, in some
modes, a word that is read from the table. -/
lemma Registers.busTime_accept {β : Type} [Bus β] (k : Registers) (i : Interrupt) (bus : β) :
    4 + (k.accept i).readTime + ((k.accept i).run bus).1.store.time ≤ i.duration k.im := by
  cases i with
  | nonMaskable => exact Nat.le_of_ble_eq_true rfl
  | maskable data =>
    rw [accept, Interrupt.duration]
    by_cases hzero : k.im = 0
    · rw [if_pos hzero, if_pos (Or.inl hzero)]
      exact Nat.le_of_ble_eq_true rfl
    · rw [if_neg hzero]
      by_cases hone : k.im = 1
      · rw [if_pos hone, if_pos (Or.inr hone)]
        exact Nat.le_of_ble_eq_true rfl
      · rw [if_neg hone, if_neg (by tauto)]
        exact Nat.le_of_ble_eq_true rfl

/-! ## Steps -/

/-- The step with the record of its bus left out. -/
def Step.untraced {β : Type} (s : Step (Traced β)) : Step β where
  processor := s.processor
  bus := s.bus.bus
  duration := s.duration
  event := s.event

section Step

variable {β : Type} [Bus β]

/-- The record does not disturb a plan. -/
lemma Plan.run_traced (p : Plan) (t : Traced β) :
    ((p.run t).1, (p.run t).2.bus) = p.run t.bus := by
  have hstore : ∀ (s : Store) (t : Traced β), (s.run t).bus = s.run t.bus := by
    intro s t
    cases s <;> rfl
  cases p <;> exact congrArg (Prod.mk _) (hstore _ _)

namespace Processor

/-- The record does not disturb a step. -/
lemma step_traced (p : Processor) (t : Traced β) : (p.step t).untraced = p.step t.bus := by
  obtain ⟨i, haccepts, hstep⟩ | ⟨haccepts, hhalted, hstep⟩ | ⟨hready, hstep⟩ := p.step_cases t
  · rw [hstep, step_of_accepts haccepts, acceptInterrupt, acceptInterrupt, ← Plan.run_traced]
    rfl
  · rw [hstep, step_of_halted haccepts hhalted]
    rfl
  · rw [hstep, step_of_ready hready, execute, execute, ← Plan.run_traced]
    rfl

/-- The accesses to the bus that the next step makes. -/
def accesses (p : Processor) (bus : β) : Array Access :=
  (p.step (Traced.start bus)).bus.accesses

/-- The number of bytes of the next instruction that are not fetched as opcodes; accepting an interrupt
and waiting have none. -/
def operandBytes (p : Processor) (bus : β) : Nat :=
  let pc := p.registers.pc
  let first := MemoryBus.peek bus pc
  let second := MemoryBus.peek bus (pc + 1)
  match p.accepts? with
  | some _ => 0
  | none =>
    if p.registers.halted = true then 0
    else encodedLength first second - encodedFetches first second

/-- A step that executes no instruction has no further bytes. -/
lemma operandBytes_of_not_ready {p : Processor} (h : ¬ p.Ready) (bus : β) :
    p.operandBytes bus = 0 := by
  rw [operandBytes]
  split
  · rfl
  · next haccepts => exact if_pos (Bool.eq_true_of_not_eq_false fun hhalted => h ⟨haccepts, hhalted⟩)

/-- The first two bytes of an instruction tell how many more it has than are fetched as opcodes. -/
lemma operandBytes_of_ready {p : Processor} (h : p.Ready) (bus : β) :
    p.operandBytes bus = (decodeAt bus p.registers.pc).length -
      (decodeAt bus p.registers.pc).page.fetches := by
  have hcode := encoding_decode (MemoryBus.codeAt bus p.registers.pc)
  rw [operandBytes, h.accepts, h.halted, ← MemoryBus.codeAt_first, decodeAt, hcode.length_eq,
    hcode.fetches_eq]
  rfl

/-- The accesses of a step fit into its time, beside its fetches and the further bytes of its
instruction. -/
lemma time_step (p : Processor) (bus : β) :
    4 * p.fetches bus + 3 * p.operandBytes bus + (p.step (Traced.start bus)).bus.time ≤
      (p.step (Traced.start bus)).duration := by
  set t := Traced.start bus
  have hstart : t.time = 0 := rfl
  obtain ⟨i, haccepts, hstep⟩ | ⟨haccepts, hhalted, hstep⟩ | ⟨hready, hstep⟩ := p.step_cases t
  · have hready := not_ready_of_accepts haccepts
    rw [fetches_of_not_ready hready, operandBytes_of_not_ready hready, hstep]
    have htime := (p.registers.accept i).time_run t
    have haccept := p.registers.busTime_accept i t
    show 4 * 1 + 3 * 0 + ((p.registers.accept i).run t).2.time ≤ i.duration p.registers.im
    omega
  · have hready := not_ready_of_halted hhalted
    rw [fetches_of_not_ready hready, operandBytes_of_not_ready hready, hstep]
    exact Nat.le_refl 4
  · set i := decodeAt t p.registers.pc
    rw [fetches_of_ready hready, operandBytes_of_ready hready, hstep]
    have htime := (i.plan p.registers).time_run t
    have hinstruction := i.busTime_le p.registers t
    show 4 * i.page.fetches + 3 * (i.length - i.page.fetches) + ((i.plan p.registers).run t).2.time ≤
      i.durationOf ((i.plan p.registers).run t).1
    omega

/-- **Timing covers the bus.**  No step is shorter than four T-states for each opcode fetch, three for
each further byte of its instruction and each access to memory, and four for each access to a port.
Fetches and further bytes are told by the bytes found before the step, and they are those of the
instruction that the step executes. -/
theorem busTime_le_duration (p : Processor) (bus : β) :
    4 * p.fetches bus + 3 * p.operandBytes bus + 3 * (p.accesses bus).countP Access.isMemory +
        4 * (p.accesses bus).countP Access.isPort ≤ (p.step bus).duration ∧
    (¬ p.Ready → p.fetches bus = 1 ∧ p.operandBytes bus = 0) ∧
    (p.Ready →
      p.fetches bus = (decodeAt bus p.registers.pc).page.fetches ∧
      p.operandBytes bus = (decodeAt bus p.registers.pc).length -
        (decodeAt bus p.registers.pc).page.fetches) := by
  have hduration : (p.step (Traced.start bus)).duration = (p.step bus).duration :=
    congrArg Step.duration (p.step_traced (Traced.start bus))
  refine ⟨?_, fun h => ⟨fetches_of_not_ready h bus, operandBytes_of_not_ready h bus⟩,
    fun h => ⟨fetches_of_ready h bus, operandBytes_of_ready h bus⟩⟩
  rw [← hduration, Nat.add_assoc]
  exact p.time_step bus

/-- The time of a step that stores a word at an address is used up by its accesses; a halted processor
makes none. -/
theorem busTime_le_duration_store :
    let p : Processor := {}
    let halted : Processor := { registers := { Registers.powerOn with halted := true } }
    let bus : Board := { memory := ((Memory.zero.write 0 0x22).write 1 0x34).write 2 0x12 }
    p.Ready ∧ ¬ halted.Ready ∧
    p.fetches bus = 1 ∧ p.operandBytes bus = 2 ∧
    p.accesses bus = #[.write 0x1234 0, .write 0x1235 0] ∧
    4 * 1 + 3 * 2 + 3 * 2 + 4 * 0 = (p.step bus).duration ∧
    halted.fetches bus = 1 ∧ halted.operandBytes bus = 0 := by
  intro p halted bus
  have hready : p.Ready := ⟨rfl, rfl⟩
  have hhalted : ¬ halted.Ready := not_ready_of_halted rfl
  obtain ⟨-, -, hbytes⟩ := busTime_le_duration p bus
  obtain ⟨-, hnone, -⟩ := busTime_le_duration halted bus
  obtain ⟨hfetches, hoperand⟩ := hbytes hready
  refine ⟨hready, hhalted, hfetches.trans ?_, hoperand.trans ?_, ?_, ?_, hnone hhalted⟩
  all_goals decide +kernel

end Processor

end Step

end Z80

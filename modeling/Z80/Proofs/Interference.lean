import Z80.Proofs.Acceptance
import Z80.Proofs.Encoding
import Z80.Proofs.Hidden
import Z80.Proofs.Latch
import Z80.Proofs.Lockstep

/-!
# What the address latch and the revision decide

The chip revisions differ in what a store of the accumulator leaves in the address latch, and the
latch can be seen in the flags after a test of a bit of the memory at HL.  This file proves that
nothing else depends on either (`Machine.latch_noninterference`).

The proof varies the latch of a processor and follows the variation through a step.  Every operation
but such a test does the same with another latch and leaves it there (`Operation.plan_withLatch`), so
a step of the varied processor is the step, varied (`Processor.step_varied`), and two machines that
agree but for latch and revision go in lockstep.  The low byte of the latch is followed on the way:
no rule lets the high byte or the revision reach it (`LatchRule.low_apply`).
-/

namespace Z80

/-! ## Operations and the latch -/

/-- The registers with another value in the address latch. -/
def Registers.withLatch (k : Registers) (w : UInt16) : Registers :=
  { k with wz := w }

/-- Every operation that does not look at the latch does the same whatever is there, and leaves it. -/
lemma Operation.plan_withLatch (op : Operation) (h : op.readsLatch = false) (d : Int8)
    (immediate : UInt16) (k : Registers) (w : UInt16) :
    op.plan d immediate (k.withLatch w) =
      (op.plan d immediate k).onRegisters fun rest => rest.withLatch w := by
  have hlatch : op.readsLatch = true → (fun _ => w) = id := by
    intro hreads
    rw [h] at hreads
    cases hreads
  exact op.plan_apply { latch := fun _ => w } hlatch (fun _ => rfl) d immediate k

/-- Whether the first two bytes are those of a test of a bit of the memory at HL. -/
def IsLatchTest (first second : UInt8) : Prop :=
  first = 0xCB ∧ ∃ n : Fin 8, second = UInt8.ofNat (0x46 + 8 * n)

set_option maxRecDepth 4000 in
/-- No opcode of the main page looks at the latch. -/
lemma readsLatch_mainOperation (x : Option Index) (op : UInt8) :
    (mainOperation x op).readsLatch = false := by
  revert op
  refine forall_byte ?_
  rcases x with _ | _ | _ <;> decide +kernel

set_option maxRecDepth 4000 in
/-- No opcode of the extended page looks at the latch. -/
lemma readsLatch_extendedOperation (op : UInt8) : (extendedOperation op).readsLatch = false := by
  revert op
  exact forall_byte (by decide +kernel)

set_option maxRecDepth 4000 in
/-- On the bit page, the tests of memory look at the latch. -/
lemma readsLatch_bitsOperation (op : UInt8) :
    (bitsOperation (operandOfCode none (opcodeZ op)) none op).readsLatch = true ↔
      ∃ n : Fin 8, op = UInt8.ofNat (0x46 + 8 * n) := by
  revert op
  exact forall_byte (by decide +kernel)

/-- An instruction looks at the latch just if it tests a bit of the memory at HL. -/
lemma Encoding.readsLatch_iff {code : Nat → UInt8} {i : Instruction} (h : Encoding code i) :
    i.operation.readsLatch = true ↔ IsLatchTest (code 0) (code 1) := by
  have hindex : ∀ (x : Index) second, ¬ IsLatchTest x.prefixByte second := by
    rintro (_ | _) second ⟨hfirst, -⟩ <;> cases hfirst
  cases h with
  | main hfirst =>
    rw [operation_decodeFrom]
    refine iff_of_false (Bool.eq_false_iff.mp (readsLatch_mainOperation none _)) ?_
    rintro ⟨hbits, -⟩
    rw [hbits] at hfirst
    cases hfirst
  | bits hfirst =>
    rw [operation_decodeFrom, IsLatchTest, and_iff_right hfirst]
    exact readsLatch_bitsOperation _
  | extended hfirst =>
    rw [operation_decodeFrom]
    refine iff_of_false (Bool.eq_false_iff.mp (readsLatch_extendedOperation _)) ?_
    rintro ⟨hbits, -⟩
    rw [hbits] at hfirst
    cases hfirst
  | indexed x hfirst hsecond =>
    rw [operation_decodeFrom, hfirst]
    exact iff_of_false (Bool.eq_false_iff.mp (readsLatch_mainOperation (some x) _)) (hindex x _)
  | indexedBits x hfirst hsecond =>
    rw [hfirst]
    refine iff_of_false ?_ (hindex x _)
    simp only [Instruction.operation, Page.operation, bitsOperation]
    split <;> exact Bool.false_ne_true
  | lone x hfirst hsecond =>
    rw [hfirst]
    exact iff_of_false Bool.false_ne_true (hindex x _)

/-- A step that tests a bit of the memory at HL is one whose instruction looks at the latch. -/
lemma Machine.executes_isLatchTest_iff (m : Machine) :
    m.Executes IsLatchTest ↔ m.processor.Ready ∧
      (decodeAt m.board m.processor.registers.pc).operation.readsLatch = true := by
  rw [executes_iff, decodeAt, (encoding_decode _).readsLatch_iff]

/-- An operation that looks at the latch is a test of a bit of the memory at HL. -/
lemma Operation.eq_testBit_of_readsLatch {op : Operation} (h : op.readsLatch = true) :
    ∃ n, op = .testBit n .atHL := by
  cases op with
  | testBit n o =>
    cases o with
    | atHL => exact ⟨n, rfl⟩
    | _ => cases h
  | _ => cases h

/-- With another value in the latch, an operation has the same effect but for the latch itself and,
if it looks at the latch, for the two bit copies in the flags. -/
lemma Operation.outcome_withLatch (op : Operation) (d : Int8) (immediate : UInt16) (k : Registers)
    (w : UInt16) (board : Board) :
    ∃ f : Flags, (op.plan d immediate (k.withLatch w)).outcome board =
        ((op.plan d immediate k).outcome board).onRegisters (fun rest => { rest with wz := w, f }) ∧
      f.copyBits 0 = ((op.plan d immediate k).outcome board).registers.f.copyBits 0 ∧
      (op.readsLatch = false → f = ((op.plan d immediate k).outcome board).registers.f) := by
  cases hreads : op.readsLatch with
  | false =>
    refine ⟨_, ?_, rfl, fun _ => rfl⟩
    rw [op.plan_withLatch hreads, Plan.outcome_onRegisters]
    rfl
  | true =>
    obtain ⟨n, rfl⟩ := Operation.eq_testBit_of_readsLatch hreads
    exact ⟨_, rfl, rfl, nofun⟩

/-- Accepting an interrupt sets the latch and does not look at it. -/
lemma Registers.accept_withLatch (k : Registers) (w : UInt16) (i : Interrupt) :
    (k.withLatch w).accept i = k.accept i := by
  cases i <;> rfl

/-- The low byte that a rule leaves in the latch depends on the low byte before, and not on the
revision. -/
lemma LatchRule.low_apply (rule : LatchRule) (revision revision' : Revision) (inputs : LatchInputs)
    {w w' : UInt16} (h : low w = low w') :
    low (rule.apply revision inputs w) = low (rule.apply revision' inputs w') := by
  have hstep : ∀ k : Direction, low (k.step w) = low (k.step w') := by
    intro k
    cases k <;> simp [Direction.step, h]
  cases rule with
  | unchanged => exact h
  | accumulatorMix => simp [apply]
  | targetIfTaken | transferRepeat =>
    simp only [apply]
    split
    · rfl
    · exact h
  | count k => exact hstep k
  | searchRepeat k =>
    simp only [apply]
    split
    · rfl
    · exact hstep k
  | _ => rfl

/-! ## Steps and the latch -/

namespace Processor

/-- The processor with another latch, another configuration and another count of T-states. -/
def varied (p : Processor) (w : UInt16) (config : Config) (ticks : Ticks) : Processor where
  registers := p.registers.withLatch w
  interrupts := p.interrupts
  config := config
  ticks := ticks

/-- A step of a varied processor is that of the processor, varied again: only the instructions that
look at the latch let it show in the flags, and there only in the two bit copies. -/
lemma step_varied (p : Processor) (w : UInt16) (config : Config) (ticks : Ticks) (board : Board) :
    ∃ w' ticks' f, (p.varied w config ticks).step board =
        { p.step board with
          processor :=
            { (p.step board).processor with
              registers := { (p.step board).processor.registers with wz := w', f }
              config
              ticks := ticks' } } ∧
      (low p.registers.wz = low w → low (p.step board).processor.registers.wz = low w') ∧
      f.copyBits 0 = (p.step board).processor.registers.f.copyBits 0 ∧
      (¬ (p.Ready ∧ (decodeAt board p.registers.pc).operation.readsLatch = true) →
        f = (p.step board).processor.registers.f) := by
  obtain ⟨i, haccepts, hstep⟩ | ⟨haccepts, hhalted, hstep⟩ | ⟨hready, hstep⟩ := p.step_cases board
  -- An interrupt that is accepted overwrites the latch, so the registers are the same afterwards.
  · have hvaried : (p.varied w config ticks).accepts? = some i := haccepts
    have hplan : (p.varied w config ticks).looked.registers.accept i = p.registers.accept i :=
      p.registers.accept_withLatch w i
    rw [step_of_accepts hvaried, hstep, acceptInterrupt, hplan]
    exact ⟨_, _, _, rfl, fun _ => rfl, rfl, fun _ => rfl⟩
  · have hvaried : (p.varied w config ticks).accepts? = none := haccepts
    have hwaits : (p.varied w config ticks).registers.halted = true := hhalted
    rw [step_of_halted hvaried hwaits, hstep]
    exact ⟨w, _, _, rfl, fun hlow => hlow, rfl, fun _ => rfl⟩
  -- The instruction has the same effect but for latch and flags, and its rule is applied to that.
  · have hvaried : (p.varied w config ticks).Ready := ⟨hready.accepts, hready.halted⟩
    set i := decodeAt board p.registers.pc
    obtain ⟨f, heffect, hcopies, hsame⟩ :=
      i.operation.outcome_withLatch i.displacement i.immediate (i.fetched p.registers) w board
    set effect := (i.plan p.registers).outcome board
    have hvariedEffect : (i.plan (p.varied w config ticks).looked.registers).outcome board =
        effect.onRegisters (fun rest => { rest with wz := w, f }) := heffect
    have hlatch : effect.registers.wz = p.registers.wz :=
      i.operation.wz_plan i.displacement i.immediate (i.fetched p.registers) board
    have hpc : decodeAt board (p.varied w config ticks).registers.pc = i := rfl
    rw [step_of_ready hvaried, hpc, hstep, execute, Plan.run_eq, hvariedEffect, execute, Plan.run_eq]
    refine ⟨_, _, f, rfl, fun hlow => ?_, hcopies, fun hclean => hsame ?_⟩
    · refine i.operation.latchRule.low_apply _ _ _ ?_
      exact (congrArg low hlatch).trans hlow
    · rw [← Bool.not_eq_true]
      exact fun hreads => hclean ⟨hready, hreads⟩

end Processor

/-! ## Machines that agree -/

namespace Registers

/-- The registers as they look without the address latch. -/
def hideLatch (k : Registers) : Registers :=
  { k with wz := 0 }

/-- The registers as they look without the address latch and the two bit copies in the flags. -/
def hideCopies (k : Registers) : Registers :=
  { k with wz := 0, f := k.f.copyBits 0 }

end Registers

namespace Machine

/-- Two machines agree if their registers look the same and everything else is the same, but for the
revision and the count of T-states. -/
structure Agree (view : Registers → Registers) (m m' : Machine) : Prop where
  /-- The registers look the same. -/
  registers : view m.processor.registers = view m'.processor.registers
  /-- The same interrupts wait, and the same are held off. -/
  interrupts : m.processor.interrupts = m'.processor.interrupts
  /-- The same byte is on the data bus where no device supplies one. -/
  interruptByte : m.processor.config.interruptByte = m'.processor.config.interruptByte
  /-- Memory, answers of ports and writes to ports are the same. -/
  board : m.board = m'.board

variable {m m' : Machine}

/-- A machine that agrees with another but for the latch is that machine, varied. -/
lemma Agree.exists_varied (h : m.Agree Registers.hideLatch m') :
    ∃ w config ticks, m.processor.config.interruptByte = config.interruptByte ∧
      m' = { m with processor := m.processor.varied w config ticks } := by
  rcases m with ⟨⟨k, interrupts, config, ticks⟩, board⟩
  rcases m' with ⟨⟨k', interrupts', config', ticks'⟩, board'⟩
  obtain ⟨hregisters, hinterrupts, hbyte, hboard⟩ := h
  have hk : k' = k.withLatch k'.wz :=
    calc k' = k'.hideLatch.withLatch k'.wz := rfl
      _ = k.hideLatch.withLatch k'.wz := by rw [show k'.hideLatch = k.hideLatch from hregisters.symm]
      _ = k.withLatch k'.wz := rfl
  refine ⟨k'.wz, config', ticks', hbyte, ?_⟩
  simp only at hinterrupts hboard
  rw [Processor.varied, ← hk, hinterrupts, hboard]

/-- A step keeps the configuration. -/
lemma config_next (m : Machine) : m.next.processor.config = m.processor.config := by
  unfold next step
  rcases m.processor.step_cases m.board with ⟨i, -, h⟩ | ⟨-, -, h⟩ | ⟨-, h⟩ <;> rw [h] <;> rfl

/-- A step from machines that agree but for the latch is equally long, and the machines agree after
it, but for the latch and, if the instruction looks at the latch, the two bit copies. -/
lemma Agree.step (h : m.Agree Registers.hideLatch m') :
    m'.step.duration = m.step.duration ∧
    (low m.processor.registers.wz = low m'.processor.registers.wz →
      low m.next.processor.registers.wz = low m'.next.processor.registers.wz) ∧
    m.next.Agree Registers.hideCopies m'.next ∧
    (¬ m.Executes IsLatchTest → m.next.Agree Registers.hideLatch m'.next) := by
  obtain ⟨w, config, ticks, hbyte, rfl⟩ := h.exists_varied
  obtain ⟨w', ticks', f, hstep, hlow, hcopies, hsame⟩ :=
    m.processor.step_varied w config ticks m.board
  have hbyte : m.next.processor.config.interruptByte = config.interruptByte := by
    rw [config_next, hbyte]
  rw [executes_isLatchTest_iff, next, next, step, step, hstep]
  refine ⟨rfl, hlow, ⟨?_, rfl, hbyte, rfl⟩, fun hclean => ⟨?_, rfl, hbyte, rfl⟩⟩
  · exact congrArg (fun f' => { m.step.processor.registers with wz := 0, f := f' }) hcopies.symm
  · exact congrArg (fun f' => { m.step.processor.registers with wz := 0, f := f' })
      (hsame hclean).symm

/-- A command that takes no step keeps machines in agreement but for the latch, and the low bytes of
their latches the same. -/
lemma Agree.perform (h : m.Agree Registers.hideLatch m') {action : Command}
    (haction : action.steps = false) :
    (m.perform action).Agree Registers.hideLatch (m'.perform action) ∧
    (low m.processor.registers.wz = low m'.processor.registers.wz →
      low (m.perform action).processor.registers.wz =
        low (m'.perform action).processor.registers.wz) := by
  obtain ⟨w, config, ticks, hbyte, rfl⟩ := h.exists_varied
  cases action with
  | step | run => cases haction
  | set s v =>
    cases s with
    | wz => exact ⟨⟨rfl, rfl, hbyte, rfl⟩, fun _ => rfl⟩
    | _ => exact ⟨⟨rfl, rfl, hbyte, rfl⟩, fun hlow => hlow⟩
  | restore | reset => exact ⟨⟨rfl, rfl, hbyte, rfl⟩, fun _ => rfl⟩
  | requestInterrupt =>
    exact ⟨⟨rfl, congrArg m.processor.interrupts.raise hbyte, hbyte, rfl⟩, fun hlow => hlow⟩
  | writeBlock start block =>
    obtain ⟨memory, hperform⟩ := exists_perform_writeBlock m.board.memory start block
    rw [hperform m rfl, hperform { m with processor := m.processor.varied w config ticks } rfl]
    exact ⟨⟨rfl, rfl, hbyte, rfl⟩, fun hlow => hlow⟩
  | _ => exact ⟨⟨rfl, rfl, hbyte, rfl⟩, fun hlow => hlow⟩

/-- Machines that agree but for the latch go in lockstep as long as no instruction looks at the
latch. -/
lemma lockstep_agree :
    Lockstep (Agree Registers.hideLatch) (fun m => ¬ m.Executes IsLatchTest) fun _ => True where
  duration h _ := h.step.1
  next h hclean := h.step.2.2.2 hclean
  perform _ haction h := (h.perform haction).1

/-- The low bytes of their latches stay the same if they are. -/
lemma lockstep_agree_low :
    Lockstep
      (fun m m' => m.Agree Registers.hideLatch m' ∧
        low m.processor.registers.wz = low m'.processor.registers.wz)
      (fun m => ¬ m.Executes IsLatchTest) fun _ => True where
  duration h _ := h.1.step.1
  next h hclean := ⟨h.1.step.2.2.2 hclean, h.1.step.2.1 h.2⟩
  perform _ haction h := ⟨(h.1.perform haction).1, (h.1.perform haction).2 h.2⟩

/-- **The latch and the revision interfere with bit tests of memory only.**  Two machines that agree
but for them are given the same commands.  As long as no step tests a bit of the memory at HL, every
command reports the same T-states, and the machines agree after every command; the low bytes of the
latches and the counts of T-states stay the same if they are.  A step that does test such a bit takes
the same time as well, and shows a difference only in the two bit copies. -/
theorem latch_noninterference (h : m.Agree Registers.hideLatch m') (actions : List Command)
    (hclean : m.Throughout (fun before => ¬ before.Executes IsLatchTest) actions) :
    m'.reports actions = m.reports actions ∧
    (m.performAll actions).Agree Registers.hideLatch (m'.performAll actions) ∧
    (low m.processor.registers.wz = low m'.processor.registers.wz →
      low (m.performAll actions).processor.registers.wz =
        low (m'.performAll actions).processor.registers.wz) ∧
    (m.processor.ticks = m'.processor.ticks →
      (m.performAll actions).processor.ticks = (m'.performAll actions).processor.ticks) ∧
    ((m.performAll actions).Executes IsLatchTest →
      (m'.performAll actions).step.duration = (m.performAll actions).step.duration ∧
      (m.performAll actions).next.Agree Registers.hideCopies (m'.performAll actions).next ∧
      (low (m.performAll actions).processor.registers.wz =
          low (m'.performAll actions).processor.registers.wz →
        low (m.performAll actions).next.processor.registers.wz =
          low (m'.performAll actions).next.processor.registers.wz)) := by
  have hallowed : ∀ action ∈ actions, True := fun _ _ => trivial
  obtain ⟨hreports, hagree⟩ := lockstep_agree.performAll h hallowed hclean
  obtain ⟨hduration, hlow, hcopies, -⟩ := hagree.step
  refine ⟨hreports, hagree, fun hwz => ?_, fun hticks => ?_, fun _ => ⟨hduration, hcopies, hlow⟩⟩
  · exact (lockstep_agree_low.performAll ⟨h, hwz⟩ hallowed hclean).2.2
  · exact ticks_performAll hreports hticks

/-- The two revisions store the accumulator and then test a bit of the memory at HL: after the store
their latches differ in the high byte, after the test the copies of its bits. -/
theorem latch_noninterference_store :
    let board : Board :=
      { memory := (((Memory.zero.write 0 0x32).write 1 0x34).write 3 0xCB).write 4 0x46 }
    let m : Machine := { processor := { config := { revision := .nmos } }, board }
    let m' : Machine :=
      { processor :=
          { registers := { Registers.powerOn with wz := 0x1200 }, config := { revision := .bm1 } }
        board }
    m.Agree Registers.hideLatch m' ∧
    m.Throughout (fun before => ¬ before.Executes IsLatchTest) [.step] ∧
    (m.performAll [.step]).Executes IsLatchTest ∧
    m'.reports [.step] = m.reports [.step] ∧
    (m.performAll [.step]).next.Agree Registers.hideCopies (m'.performAll [.step]).next ∧
    (m.performAll [.step]).next.processor.registers.f.y = true ∧
    (m'.performAll [.step]).next.processor.registers.f.y = false := by
  intro board m m'
  have hagree : m.Agree Registers.hideLatch m' := ⟨rfl, rfl, rfl, rfl⟩
  have hclean : m.Throughout (fun before => ¬ before.Executes IsLatchTest) [.step] := by
    refine ⟨fun j hj => ?_, trivial⟩
    obtain rfl : j = 0 := Nat.lt_one_iff.mp hj
    rintro ⟨-, -, hfirst, -⟩
    revert hfirst
    decide +kernel
  have htest : (m.performAll [.step]).Executes IsLatchTest := by
    refine ⟨?_, ?_, ?_, 0, ?_⟩ <;> decide +kernel
  obtain ⟨hreports, -, -, -, hlast⟩ := latch_noninterference hagree [.step] hclean
  refine ⟨hagree, hclean, htest, hreports, (hlast htest).2.1, ?_, ?_⟩
  all_goals decide +kernel

end Machine

end Z80

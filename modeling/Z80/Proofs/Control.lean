import Z80.Proofs.Service

/-!
# Interrupt enables, interrupt mode and waiting

Four parts of the register file decide how the next step begins: the interrupt enable and its saved
copy, the interrupt mode, and whether the processor waits.  Few operations touch them, and each does so
in a way that depends on nothing else (`Operation.control_plan`).

Starting from power-on, a program keeps them in order as long as the program counter, the two enables
and the memory are left to it (`Machine.orderly_performAll`): maskable interrupts are let in only if the
saved copy says so too, the mode is one of the three, and a processor that waits has a halt right
behind it.
-/

namespace Z80

/-! ## The control state -/

/-- What decides how a step begins. -/
structure Control where
  /-- Whether maskable interrupts are let in. -/
  iff1 : Bool
  /-- The saved interrupt enable. -/
  iff2 : Bool
  /-- The interrupt mode. -/
  im : UInt8
  /-- Whether the processor waits. -/
  halted : Bool

/-- The control state of a register file. -/
def Registers.control (k : Registers) : Control where
  iff1 := k.iff1
  iff2 := k.iff2
  im := k.im
  halted := k.halted

/-- The control state after an operation. -/
def Operation.control (op : Operation) (c : Control) : Control :=
  match op with
  | .halt => { c with halted := true }
  | .disableInterrupts => { c with iff1 := false, iff2 := false }
  | .enableInterrupts => { c with iff1 := true, iff2 := true }
  | .setMode mode => { c with im := mode }
  | .retInterrupt => { c with iff1 := c.iff2 }
  | _ => c

/-- An operation changes the control state as stated, whatever it reads. -/
lemma Operation.control_plan (op : Operation) (d : Int8) (immediate : UInt16) (k : Registers)
    (board : Board) :
    ((op.plan d immediate k).outcome board).registers.control = op.control k.control := by
  have himplicit := op.implicit_plan d immediate k board
  refine (congrArg (fun s => Control.mk s.iff1 s.iff2 s.im s.halted) himplicit).trans ?_
  cases op <;> rfl

/-! ## Opcodes that select a mode or wait -/

/-- Whether the interrupt mode that an operation selects, if it selects one, is one of the three. -/
def Operation.selectsMode : Operation → Bool
  | .setMode mode => mode ≤ 2
  | _ => true

set_option maxRecDepth 4000 in
/-- No opcode selects another mode. -/
lemma selectsMode_operation (page : Page) (op : UInt8) :
    (page.operation op).selectsMode = true := by
  revert page op
  exact forall_opcode (by decide +kernel)

set_option maxRecDepth 4000 in
/-- One opcode of the main page waits, with and without an index prefix. -/
lemma mainOperation_eq_halt (x : Option Index) (op : UInt8) :
    mainOperation x op = .halt ↔ op = 0x76 := by
  revert op
  refine forall_byte ?_
  rcases x with _ | _ | _ <;> decide +kernel

set_option maxRecDepth 4000 in
lemma extendedOperation_ne_halt (op : UInt8) : extendedOperation op ≠ .halt := by
  revert op
  exact forall_byte (by decide +kernel)

lemma bitsOperation_ne_halt (o : Operand) (copy : Option ByteRegister) (op : UInt8) :
    bitsOperation o copy op ≠ .halt := by
  intro h
  simp only [bitsOperation] at h
  split at h <;> cases h

/-- A halt is a single opcode, which may stand behind an index prefix. -/
lemma Encoding.cases_halt {code : Nat → UInt8} {i : Instruction} (h : Encoding code i)
    (hhalt : i.operation = .halt) :
    code 0 = 0x76 ∧ i.length = 1 ∨
      (∃ x : Index, code 0 = x.prefixByte) ∧ code 1 = 0x76 ∧ i.length = 2 := by
  have hlength := h.length_eq
  cases h with
  | main hfirst =>
    rw [operation_decodeFrom] at hhalt
    have hopcode : code 0 = 0x76 := (mainOperation_eq_halt none _).1 hhalt
    rw [hopcode] at hlength
    exact Or.inl ⟨hopcode, hlength⟩
  | bits hfirst =>
    rw [operation_decodeFrom] at hhalt
    exact absurd hhalt (bitsOperation_ne_halt _ _ _)
  | extended hfirst =>
    rw [operation_decodeFrom] at hhalt
    exact absurd hhalt (extendedOperation_ne_halt _)
  | indexed x hfirst hsecond =>
    rw [operation_decodeFrom] at hhalt
    have hopcode : code 1 = 0x76 := (mainOperation_eq_halt (some x) _).1 hhalt
    rw [hfirst, hopcode] at hlength
    refine Or.inr ⟨⟨x, hfirst⟩, hopcode, hlength.trans ?_⟩
    cases x <;> rfl
  | indexedBits x hfirst hsecond => exact absurd hhalt (bitsOperation_ne_halt _ _ _)
  | lone x hfirst hsecond => cases hhalt

/-- An instruction that waits ends with the opcode for it. -/
lemma Encoding.last_of_halt {code : Nat → UInt8} {i : Instruction} (h : Encoding code i)
    (hhalt : i.operation = .halt) : ∃ n, i.length = n + 1 ∧ code n = 0x76 := by
  obtain ⟨hopcode, hlength⟩ | ⟨-, hopcode, hlength⟩ := h.cases_halt hhalt
  · exact ⟨0, hlength, hopcode⟩
  · exact ⟨1, hlength, hopcode⟩

/-! ## Machines in order -/

/-- Maskable interrupts are let in only if the saved enable says so too, and the mode is one of the
three. -/
structure Control.Orderly (c : Control) : Prop where
  /-- The saved enable is not behind. -/
  enabled : c.iff1 = true → c.iff2 = true
  /-- There are three modes. -/
  mode : c.im ≤ 2

/-- An operation that selects one of the three modes, if it selects one, keeps a control state in
order. -/
lemma Control.Orderly.operation {c : Control} (h : c.Orderly) {op : Operation}
    (hop : op.selectsMode = true) : (op.control c).Orderly := by
  cases op with
  | disableInterrupts => exact ⟨nofun, h.mode⟩
  | enableInterrupts => exact ⟨fun _ => rfl, h.mode⟩
  | setMode mode => exact ⟨h.enabled, of_decide_eq_true hop⟩
  | retInterrupt => exact ⟨id, h.mode⟩
  | _ => exact ⟨h.enabled, h.mode⟩

/-- Only waiting makes a processor wait. -/
lemma Operation.eq_halt_of_control {op : Operation} {c : Control} (hc : c.halted = false)
    (h : (op.control c).halted = true) : op = .halt := by
  cases op with
  | halt => rfl
  | _ => exact absurd (hc.symm.trans h) Bool.false_ne_true

namespace Machine

/-- The control state is in order, and a processor that waits has the opcode for it right behind its
program counter. -/
structure Orderly (m : Machine) : Prop where
  /-- The control state is in order. -/
  control : m.processor.registers.control.Orderly
  /-- A processor waits because it was told to. -/
  halted : m.processor.registers.halted = true → m.read (m.processor.registers.pc - 1) = 0x76

variable {m : Machine}

/-- The control state after an instruction is that of its operation. -/
lemma control_next_of_ready (h : m.processor.Ready) :
    m.next.processor.registers.control =
      (decodeAt m.board m.processor.registers.pc).operation.control
        m.processor.registers.control := by
  show (m.processor.step m.board).processor.registers.control = _
  rw [Processor.registers_step_of_ready h]
  exact Operation.control_plan _ _ _ _ _

/-- An instruction that waits is passed, and leaves the board. -/
lemma next_of_halt (h : m.processor.Ready)
    (hhalt : (decodeAt m.board m.processor.registers.pc).operation = .halt) :
    m.next.processor.registers.pc = m.processor.registers.pc +
        UInt16.ofNat (decodeAt m.board m.processor.registers.pc).length ∧
      m.next.board = m.board := by
  set k := m.processor.registers
  set i := decodeAt m.board k.pc
  have hplan : i.plan m.processor.looked.registers =
      .done { registers := { i.fetched k with halted := true } } := by
    rw [Instruction.plan, hhalt]
    rfl
  rw [next, step, Processor.step_of_ready h, Processor.execute, hplan]
  exact ⟨rfl, rfl⟩

/-- Right behind an instruction that waits, the opcode for it is found. -/
lemma read_next_of_halt (h : m.processor.Ready)
    (hhalt : (decodeAt m.board m.processor.registers.pc).operation = .halt) :
    m.next.read (m.next.processor.registers.pc - 1) = 0x76 := by
  set k := m.processor.registers
  obtain ⟨n, hlength, hlast⟩ := (encoding_decode (MemoryBus.codeAt m.board k.pc)).last_of_halt hhalt
  have hback : k.pc + UInt16.ofNat (n + 1) - 1 = k.pc + UInt16.ofNat n := by
    rw [UInt16.ofNat_add]
    grind
  obtain ⟨hpc, hboard⟩ := next_of_halt h hhalt
  rw [read, hpc, hboard, show (decodeAt m.board k.pc).length = n + 1 from hlength, hback]
  exact hlast

/-- A step keeps a machine in order. -/
lemma Orderly.next (h : m.Orderly) : m.next.Orderly := by
  obtain ⟨i, haccepts, -⟩ | ⟨haccepts, hhalted, hstep⟩ | ⟨hready, -⟩ :=
    m.processor.step_cases m.board
  · have haccepted : m.accepted? = some i := m.accepted?_eq.trans haccepts
    rw [(next_of_accepted haccepted).1]
    exact ⟨⟨nofun, h.control.mode⟩, nofun⟩
  · rw [Machine.next, step, hstep]
    exact ⟨⟨h.control.enabled, h.control.mode⟩, h.halted⟩
  · have hcontrol := control_next_of_ready hready
    refine ⟨?_, fun hwaits => ?_⟩
    · rw [hcontrol]
      exact h.control.operation (selectsMode_operation _ _)
    · have hbefore : m.processor.registers.control.halted = false := hready.halted
      refine read_next_of_halt hready (Operation.eq_halt_of_control hbefore ?_)
      rw [← hcontrol]
      exact hwaits

end Machine

/-- The command leaves the program counter, the two interrupt enables and the memory to the
program. -/
def Command.LeavesControl : Command → Prop
  | .set s _ => s ≠ .pc ∧ s ≠ .iff1 ∧ s ≠ .iff2
  | .restore _ | .write _ _ | .writeBlock _ _ => False
  | _ => True

namespace Machine

variable {m : Machine}

/-- With the registers as after power-on, a machine is in order. -/
lemma orderly_powerOn (h : m.processor.registers = .powerOn) : m.Orderly := by
  refine ⟨?_, ?_⟩
  · rw [h]
    exact ⟨nofun, by decide⟩
  · rw [h]
    nofun

/-- A register that is written by name, other than the program counter and the enables, keeps a
machine in order. -/
lemma Orderly.set (h : m.Orderly) {s : Selector} (v : UInt16) (hpc : s ≠ .pc) (hiff1 : s ≠ .iff1)
    (hiff2 : s ≠ .iff2) : (m.set s v).Orderly := by
  cases s with
  | pc => exact absurd rfl hpc
  | iff1 => exact absurd rfl hiff1
  | iff2 => exact absurd rfl hiff2
  | im =>
    refine ⟨⟨h.control.enabled, ?_⟩, h.halted⟩
    show (if low v ≤ 2 then low v else 2) ≤ 2
    split
    · assumption
    · decide
  | _ => exact ⟨⟨h.control.enabled, h.control.mode⟩, h.halted⟩

/-- A command that takes no step and leaves the control state to the program keeps a machine in
order. -/
lemma Orderly.perform (h : m.Orderly) {action : Command} (hleaves : action.LeavesControl)
    (haction : action.steps = false) : (m.perform action).Orderly := by
  cases action with
  | step | run => cases haction
  | restore | write | writeBlock => cases hleaves
  | set s v => exact h.set v hleaves.1 hleaves.2.1 hleaves.2.2
  | reset => exact orderly_powerOn rfl
  | _ => exact ⟨h.control, h.halted⟩

/-- **Machines stay in order.**  From power-on on any board, under any commands that leave the program
counter, the two interrupt enables and the memory to the program, maskable interrupts are let in only
if the saved enable is set too, the interrupt mode is 0, 1 or 2, and a processor that waits has the
opcode for it in the byte before its program counter. -/
theorem orderly_performAll (config : Config) (board : Board) (actions : List Command)
    (hleaves : ∀ action ∈ actions, action.LeavesControl) :
    let m := Machine.performAll { processor := { config }, board } actions
    let k := m.processor.registers
    (k.iff1 = true → k.iff2 = true) ∧ (k.im = 0 ∨ k.im = 1 ∨ k.im = 2) ∧
      (k.halted = true → m.read (k.pc - 1) = 0x76) := by
  intro m k
  have hstart : Orderly { processor := { config }, board } := orderly_powerOn rfl
  have hm : m.Orderly := performAll_induction (fun _ h => h.next)
    (fun _ action hmem haction h => h.perform (hleaves action hmem) haction) hstart
  have hmodes : ∀ mode : UInt8, mode ≤ 2 → mode = 0 ∨ mode = 1 ∨ mode = 2 :=
    forall_byte (by decide +kernel)
  exact ⟨hm.control.enabled, hmodes _ hm.control.mode, hm.halted⟩

/-- A prefixed halt, reached with a mode out of range written and a maskable request waiting. -/
theorem orderly_performAll_halt :
    let board : Board := { memory := (Memory.zero.write 0 0xDD).write 1 0x76 }
    let actions : List Command := [.set .im 0xFF, .interrupt 0xFF, .step]
    let m := Machine.performAll { board } actions
    (∀ action ∈ actions, action.LeavesControl) ∧ m.processor.registers.halted = true ∧
      m.processor.registers.im = 2 ∧ m.read (m.processor.registers.pc - 1) = 0x76 := by
  intro board actions m
  have hleaves : ∀ action ∈ actions, action.LeavesControl := by
    simp [actions, Command.LeavesControl]
  have hhalted : m.processor.registers.halted = true := by decide +kernel
  have hmode : m.processor.registers.im = 2 := by decide +kernel
  obtain ⟨-, -, hhalt⟩ := orderly_performAll {} board actions hleaves
  exact ⟨hleaves, hhalted, hmode, hhalt hhalted⟩

end Machine

end Z80

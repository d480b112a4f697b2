import Z80.Proofs.Acceptance
import Z80.Proofs.Extended
import Z80.Proofs.Lockstep
import Z80.Proofs.Stack

/-!
# Serving an interrupt

An accepted interrupt puts the program counter on the stack and goes to a service address.  This file
states what it changes and that it changes nothing else (`Machine.next_of_accepted`), does the same
for the return from an interrupt (`Machine.AtExtended.next_of_return`), and puts the two together: a
service routine that returns at once brings the program back to where it was
(`Machine.service_transparent`).

Between the two, maskable requests may come and go.  They are not let in, because an accepted
interrupt shuts them out.
-/

namespace Z80

/-! ## Entering -/

/-- The service address of an interrupt, from the registers and the memory before it is accepted.  On
the bus, a restart instruction names its own address in mode 0; in the modes above 1 the address
stands in a table. -/
def serviceAddress (k : Registers) (memory : Memory) : Interrupt → UInt16
  | .nonMaskable => 0x66
  | .maskable data =>
    if k.im = 0 then if data &&& 0xC7 = 0xC7 then (data &&& 0x38).toUInt16 else 0x38
    else if k.im = 1 then 0x38
    else memory.readWord (word k.i data)

namespace Registers

/-- What an accepted interrupt leaves of the saved interrupt enable. -/
def savedEnable (k : Registers) : Interrupt → Bool
  | .nonMaskable => k.iff2
  | .maskable _ => false

/-- The registers after an interrupt has been accepted that is served at `target`. -/
def entered (k : Registers) (i : Interrupt) (target : UInt16) : Registers :=
  { k.advanceRefresh 1 with
    sp := k.sp - 2
    pc := target
    wz := target
    iff1 := false
    iff2 := k.savedEnable i
    halted := false }

/-- The effect of accepting an interrupt. -/
lemma outcome_accept (k : Registers) (i : Interrupt) (board : Board) :
    (k.accept i).outcome board =
      { registers := k.entered i (serviceAddress k board.memory i)
        store := .push k.sp k.pc
        address := serviceAddress k board.memory i
        taken := true } := by
  cases i with
  | nonMaskable => rfl
  | maskable data =>
    simp only [accept, serviceAddress]
    by_cases hzero : k.im = 0
    · rw [if_pos hzero, if_pos hzero]
      rfl
    · rw [if_neg hzero, if_neg hzero]
      split <;> rfl

end Registers

/-- The interrupts that still wait when one has been accepted. -/
def Interrupts.without (k : Interrupts) : Interrupt → Interrupts
  | .nonMaskable => { request := k.request }
  | .maskable _ => { nmi := k.nmi }

/-- A look that finds an interrupt takes it and uses the latches up.  No non-maskable interrupt is
left. -/
lemma Interrupts.poll_of_found {k : Interrupts} {enabled : Bool} {i : Interrupt}
    (h : (k.poll enabled).1 = some i) :
    (k.poll enabled).2 = k.without i ∧ (k.without i).nmi = false := by
  rcases k with ⟨_ | data, _ | _, _ | _, _ | _⟩ <;> cases enabled <;> simp [poll] at h <;>
    subst h <;> exact ⟨rfl, rfl⟩

/-- Where interrupts are shut out and no non-maskable one waits, a look finds nothing and uses the
latches up. -/
lemma Interrupts.poll_of_shut {k : Interrupts} (h : k.nmi = false) :
    k.poll false = (none, { request := k.request }) := by
  rcases k with ⟨_ | data, _ | _, _ | _, _ | _⟩ <;> first | rfl | cases h

namespace Machine

variable {m : Machine}

/-- The machine after an interrupt has been accepted. -/
def entered (m : Machine) (i : Interrupt) : Machine :=
  let k := m.processor.registers
  { processor :=
      { m.processor with
        registers := k.entered i (serviceAddress k m.board.memory i)
        interrupts := m.interrupts.without i
        ticks := m.processor.ticks + i.duration k.im }
    board := { m.board with memory := m.board.memory.push k.sp k.pc } }

/-- A step that accepts an interrupt does nothing else. -/
lemma next_of_accepted {i : Interrupt} (h : m.accepted? = some i) :
    m.next = m.entered i ∧ m.step.duration = i.duration m.processor.registers.im ∧
      m.next.interrupts.nmi = false := by
  rw [accepted?_eq] at h
  obtain ⟨hleft, hnone⟩ := Interrupts.poll_of_found h
  have hstep : m.step = m.processor.looked.acceptInterrupt i m.board :=
    Processor.step_of_accepts h m.board
  have hnext : m.next = m.entered i := by
    rw [next, hstep, Processor.acceptInterrupt, Plan.run_eq, Registers.outcome_accept, entered,
      interrupts, ← hleft]
    rfl
  refine ⟨hnext, by rw [hstep]; rfl, ?_⟩
  rw [hnext]
  exact hnone

end Machine

/-! ## Returning -/

set_option maxRecDepth 4000 in
/-- The opcodes that return from an interrupt. -/
lemma extendedOperation_eq_retInterrupt (op : UInt8) :
    extendedOperation op = .retInterrupt ↔ op &&& 0xC7 = 0x45 := by
  revert op
  exact forall_byte (by decide +kernel)

namespace Machine

variable {m : Machine}

/-- The machine after a return from an interrupt. -/
def returned (m : Machine) : Machine :=
  let k := m.processor.registers
  let top := m.board.memory.readWord k.sp
  { processor :=
      { m.processor.looked with
        registers :=
          { k.advanceRefresh 2 with sp := k.sp + 2, pc := top, wz := top, iff1 := k.iff2 }
        ticks := m.processor.ticks + 14 }
    board := m.board }

/-- A return from an interrupt does nothing else. -/
lemma AtExtended.next_of_return (h : m.AtExtended .retInterrupt) :
    m.next = m.returned ∧ m.step.duration = 14 := by
  have hduration : m.step.duration = 14 := h.duration_eq
  refine ⟨?_, hduration⟩
  rw [h.next_eq, hduration]
  rfl

/-! ## Requests in between -/

/-- The machine with another maskable request. -/
def withRequest (m : Machine) (request : Option UInt8) : Machine :=
  m.onProcessor fun p => { p with interrupts := { p.interrupts with request } }

variable {m : Machine}

/-- Signals other than the non-maskable interrupt leave some maskable request and change nothing else. -/
lemma exists_performAll_requests (m : Machine) {requests : List Command}
    (hrequests : ∀ action ∈ requests, action.isSignal = true ∧ action ≠ .nmi) :
    ∃ request, m.performAll requests = m.withRequest request := by
  obtain ⟨request, nmi, hperform, hnmi⟩ :=
    m.exists_performAll_signals fun action haction => (hrequests action haction).1
  have habsent : Command.nmi ∉ requests := fun hmem => (hrequests _ hmem).2 rfl
  have hkept : nmi = m.processor.interrupts.nmi :=
    Bool.eq_iff_iff.2 (hnmi.trans (or_iff_left habsent))
  rw [hkept] at hperform
  exact ⟨request, hperform⟩

/-! ## There and back -/

/-- The machine after an interrupt has been accepted and returned from, where the given maskable
request waits. -/
def served (m : Machine) (i : Interrupt) (request : Option UInt8) : Machine :=
  let k := m.processor.registers
  { processor :=
      { m.processor with
        registers :=
          { k.advanceRefresh 3 with
            wz := k.pc
            iff1 := k.savedEnable i
            iff2 := k.savedEnable i
            halted := false }
        interrupts := { request }
        ticks := m.processor.ticks + i.duration k.im + 14 }
    board := { m.board with memory := m.board.memory.push k.sp k.pc } }

/-- The next step accepts an interrupt, and then a return is found at its service address. -/
structure ServesAtOnce (m : Machine) (i : Interrupt) : Prop where
  /-- The interrupt is accepted. -/
  accepted : m.accepted? = some i
  /-- The prefix of the return comes first. -/
  first : (m.entered i).read (serviceAddress m.processor.registers m.board.memory i) = 0xED
  /-- Its opcode comes second. -/
  second : (m.entered i).read (serviceAddress m.processor.registers m.board.memory i + 1) &&& 0xC7 =
    0x45

/-- The return brings the program back, whatever maskable request waits by then. -/
lemma ServesAtOnce.next_entered {i : Interrupt} (h : m.ServesAtOnce i) (request : Option UInt8) :
    ((m.entered i).withRequest request).next = m.served i request := by
  set k := m.processor.registers
  obtain ⟨hnext, -, hnmi⟩ := next_of_accepted h.accepted
  rw [hnext] at hnmi
  have hpoll : ((m.entered i).withRequest request).processor.interrupts.poll false =
      (none, { request }) := Interrupts.poll_of_shut hnmi
  have hready : ((m.entered i).withRequest request).processor.Ready :=
    ⟨congrArg Prod.fst hpoll, rfl⟩
  have hreturn : ((m.entered i).withRequest request).AtExtended .retInterrupt :=
    ⟨hready, h.first, (extendedOperation_eq_retInterrupt _).2 h.second, rfl⟩
  -- The three fetches add up, and the return finds the word that was put on the stack.
  have hr : ((k.entered i (serviceAddress k m.board.memory i)).advanceRefresh 2).r =
      (k.advanceRefresh 3).r :=
    (congrArg Registers.r (k.advanceRefresh_advanceRefresh 1 2) :)
  have hsp : k.sp - 2 + 2 = k.sp := by grind
  have htop : (m.board.memory.push k.sp k.pc).readWord (k.sp - 2) = k.pc :=
    m.board.memory.readWord_push k.sp k.pc
  rw [hreturn.next_of_return.1]
  show Machine.mk
    { m.processor with
      registers :=
        { k with
          r := ((k.entered i (serviceAddress k m.board.memory i)).advanceRefresh 2).r
          sp := k.sp - 2 + 2
          pc := (m.board.memory.push k.sp k.pc).readWord (k.sp - 2)
          wz := (m.board.memory.push k.sp k.pc).readWord (k.sp - 2)
          iff1 := k.savedEnable i
          iff2 := k.savedEnable i
          halted := false }
      interrupts := (((m.entered i).withRequest request).processor.interrupts.poll false).2
      ticks := m.processor.ticks + i.duration k.im + 14 }
    { m.board with memory := m.board.memory.push k.sp k.pc } = _
  rw [hr, hsp, htop, hpoll]
  rfl

/-- **Interrupts are transparent.**  A step that accepts an interrupt leaves the machine as it was, but
for the program counter and the address latch, which hold the service address, the word that is put on
the stack, one more fetch, the end of a wait, the state of the interrupt system and the time.  If a
return from an interrupt is found at the service address then, the next step puts the program counter
and the stack pointer back, whatever maskable requests are made in between: both steps together change
no more than the refresh counter, the address latch, the two bytes below the stack pointer, the end of
a wait, the state of the interrupt system and the time. -/
theorem service_transparent {m : Machine} {i : Interrupt} (h : m.accepted? = some i) :
    let k := m.processor.registers
    let target := serviceAddress k m.board.memory i
    m.next = m.entered i ∧
    ((m.entered i).read target = 0xED → (m.entered i).read (target + 1) &&& 0xC7 = 0x45 →
      ∀ requests : List Command, (∀ action ∈ requests, action.isSignal = true ∧ action ≠ .nmi) →
        let back := ((m.entered i).performAll requests).next
        back.processor.registers =
            { k.advanceRefresh 3 with
              wz := k.pc
              iff1 := k.savedEnable i
              iff2 := k.savedEnable i
              halted := false } ∧
          back.processor.config = m.processor.config ∧
          back.processor.ticks = (m.entered i).processor.ticks + 14 ∧
          back.board = { m.board with memory := m.board.memory.push k.sp k.pc }) := by
  intro k target
  refine ⟨(next_of_accepted h).1, fun hfirst hsecond requests hrequests => ?_⟩
  have hserves : m.ServesAtOnce i := ⟨h, hfirst, hsecond⟩
  obtain ⟨request, hbetween⟩ := (m.entered i).exists_performAll_requests hrequests
  rw [hbetween, hserves.next_entered request]
  exact ⟨rfl, rfl, rfl, rfl⟩

/-- A maskable interrupt whose service address stands in a table, where the stack crosses the end of
the address space and another request is made in between. -/
theorem service_transparent_table :
    let registers : Registers :=
      { Registers.powerOn with im := 2, i := 0x3F, sp := 1, pc := 0x1234, iff1 := true, iff2 := true }
    let memory : Memory :=
      (((Memory.zero.write 0x3F10 0x00).write 0x3F11 0x80).write 0x8000 0xED).write 0x8001 0x4D
    let m : Machine :=
      { processor := { registers, interrupts := { request := some 0x10 } }, board := { memory } }
    let i : Interrupt := .maskable 0x10
    m.accepted? = some i ∧ m.next = m.entered i ∧
      (m.entered i).read 0x8000 = 0xED ∧ (m.entered i).read 0x8001 &&& 0xC7 = 0x45 ∧
      (∀ action ∈ [Command.interrupt 0x20], action.isSignal = true ∧ action ≠ .nmi) ∧
      ((m.entered i).performAll [.interrupt 0x20]).next.processor.registers =
        { registers with r := 3, wz := 0x1234, iff1 := false, iff2 := false } := by
  intro registers memory m i
  have haccepted : m.accepted? = some i := m.accepted?_eq
  have htarget : serviceAddress registers memory i = 0x8000 := by
    simp [serviceAddress, registers, i, Memory.readWord, memory, Memory.read_write, word]
  have hread : ∀ a, a ∉ [(1 - 1 : UInt16), 1 - 2] → (m.entered i).read a = memory.read a :=
    fun a => memory.read_push_of_notMem registers.pc
  have hfirst : (m.entered i).read 0x8000 = 0xED := by
    rw [hread _ (by decide)]
    simp [memory, Memory.read_write]
  have hsecond : (m.entered i).read 0x8001 &&& 0xC7 = 0x45 := by
    have hopcode : memory.read 0x8001 = 0x4D := by simp [memory, Memory.read_write]
    rw [hread _ (by decide), hopcode]
    rfl
  have hrequests : ∀ action ∈ [Command.interrupt 0x20], action.isSignal = true ∧ action ≠ .nmi := by
    simp [Command.isSignal]
  obtain ⟨hnext, hback⟩ := service_transparent haccepted
  rw [show serviceAddress m.processor.registers m.board.memory i = 0x8000 from htarget] at hback
  obtain ⟨hregisters, -⟩ := hback hfirst hsecond _ hrequests
  refine ⟨haccepted, hnext, hfirst, hsecond, hrequests, hregisters.trans ?_⟩
  decide +kernel

end Machine

end Z80

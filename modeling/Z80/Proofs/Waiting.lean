import Mathlib.Order.Bounds.Basic
import Z80.Proofs.Activity
import Z80.Proofs.ByteOperation
import Z80.Proofs.Control

/-!
# Waiting

A halted processor waits as long as no interrupt is accepted: none is if no non-maskable one has been
requested, and no maskable one has, or it is shut out.  Waiting steps do not end that, so the wait goes on
until a request comes from outside, and the whole of it can be told in one equation
(`Machine.steps_of_waits`): only the refresh counter and the time change, and the latches that hold
interrupts off are clear after the first step.  That is why a request is then accepted at once
(`Machine.accepted?_of_requested`), with the program counter as it was when the wait began.
-/

namespace Z80

namespace Processor

/-! ## Waiting steps -/

/-- The processor is halted, and no interrupt that has been requested ends that. -/
structure Waits (p : Processor) : Prop where
  /-- The processor is halted. -/
  halted : p.registers.halted = true
  /-- No non-maskable interrupt waits. -/
  nmi : p.interrupts.nmi = false
  /-- No maskable request waits, or it is shut out. -/
  masked : p.interrupts.request = none ∨ p.registers.iff1 = false

/-- The processor after a wait of `n` steps. -/
def waited (p : Processor) (n : Nat) : Processor :=
  { p with
    registers := p.registers.advanceRefresh (UInt8.ofNat n)
    interrupts := if n = 0 then p.interrupts else { p.interrupts with deferred := false, held := false }
    ticks := p.ticks.advance (4 * n) }

variable {p : Processor}

/-- No step is no wait. -/
lemma waited_zero : p.waited 0 = p := by
  show { p with registers := p.registers.advanceRefresh 0 } = p
  rw [Registers.advanceRefresh_zero]

/-- A wait can be taken in two parts. -/
lemma waited_waited (j n : Nat) : (p.waited j).waited n = p.waited (j + n) := by
  have hregisters : (p.waited (j + n)).registers = ((p.waited j).waited n).registers := by
    simp only [waited, Registers.advanceRefresh_advanceRefresh, UInt8.ofNat_add]
  have hticks : (p.waited (j + n)).ticks = ((p.waited j).waited n).ticks := by
    show p.ticks + 4 * (j + n) = p.ticks + 4 * j + 4 * n
    rw [Nat.mul_add, Nat.add_assoc]
  have hinterrupts : (p.waited (j + n)).interrupts = ((p.waited j).waited n).interrupts := by
    cases j <;> cases n <;> simp [waited]
  rw [Processor.mk.injEq]
  exact ⟨hregisters.symm, hinterrupts.symm, rfl, hticks.symm⟩

/-- Every step of a wait takes one opcode fetch. -/
lemma counted_waited (p : Processor) (n : Nat) : Counted p.registers.r n (p.waited n).registers.r := by
  obtain ⟨hhigh, hlow⟩ := p.registers.counted_advanceRefresh (UInt8.ofNat n)
  rw [UInt8.toNat_ofNat'] at hlow
  exact ⟨hhigh, hlow.trans (by omega)⟩

/-- A wait keeps the request. -/
lemma request_waited (p : Processor) (n : Nat) :
    (p.waited n).interrupts.request = p.interrupts.request := by
  simp only [waited]
  split <;> rfl

/-- A wait keeps the non-maskable interrupt. -/
lemma nmi_waited (p : Processor) (n : Nat) : (p.waited n).interrupts.nmi = p.interrupts.nmi := by
  simp only [waited]
  split <;> rfl

namespace Waits

variable (h : p.Waits)

include h

/-- Nothing is accepted. -/
lemma accepts : p.accepts? = none := by
  obtain ⟨-, hnmi, hmasked⟩ := h
  rw [accepts?, Interrupts.poll, hnmi]
  split
  · rfl
  · rcases hmasked with hrequest | hiff1
    · rw [hrequest]
      rfl
    · rw [hiff1]
      cases p.interrupts.request <;> rfl

/-- A wait goes on. -/
lemma waited (n : Nat) : (p.waited n).Waits where
  halted := h.halted
  nmi := (p.nmi_waited n).trans h.nmi
  masked := h.masked.imp_left (p.request_waited n).trans

variable {β : Type} [Bus β] (bus : β)

/-- A step of a wait looks at no bus and changes none. -/
lemma step_eq : p.step bus = { processor := p.waited 1, bus, duration := 4 } := by
  rw [step_of_halted h.accepts h.halted, looked_of_accepts h.accepts]
  rfl

/-- So does every later one. -/
lemma step_waited (n : Nat) :
    (p.waited n).step bus = { processor := p.waited (n + 1), bus, duration := 4 } := by
  rw [(h.waited n).step_eq bus, waited_waited]

/-- No access is made. -/
lemma accesses_waited (n : Nat) : (p.waited n).accesses bus = #[] := by
  rw [accesses, h.step_waited]
  rfl

end Waits

end Processor

/-- Waiting steps take four T-states each and do nothing else. -/
lemma Machine.steps_of_waits {m : Machine} (h : m.processor.Waits) (n : Nat) :
    m.steps n =
      { machine := { m with processor := m.processor.waited n }, duration := 4 * n, events := #[] } := by
  induction n generalizing m with
  | zero =>
    rw [Processor.waited_zero]
    rfl
  | succ n ih =>
    have hstep : m.step = { processor := m.processor.waited 1, bus := m.board, duration := 4 } :=
      h.step_eq m.board
    have hnext : m.next = { m with processor := m.processor.waited 1 } := by
      rw [next, hstep]
      rfl
    have hrest := ih (m := m.next) (by rw [hnext]; exact h.waited 1)
    rw [steps, hrest, once, hnext, hstep]
    show Run.mk { m with processor := (m.processor.waited 1).waited n } (4 + 4 * n) _ = _
    rw [Processor.waited_waited, Nat.add_comm 1 n, Nat.mul_succ, Nat.add_comm 4]
    rfl

/-- A run takes as many waiting steps as are needed for its budget. -/
lemma Machine.run_of_waits {m : Machine} (h : m.processor.Waits) (budget : Nat) :
    m.run budget = m.steps ((budget + 3) / 4) := by
  have hduration : ∀ n, (m.steps n).duration = 4 * n := fun n => by rw [steps_of_waits h]
  have hlength : m.IsLength budget ((budget + 3) / 4) := by
    refine ⟨?_, fun j hj => ?_⟩
    · rw [hduration]
      omega
    · rw [hduration]
      omega
  exact hlength.run_eq

/-- A run with a budget takes the least multiple of four that the budget does not exceed. -/
lemma Machine.isLeast_run_of_waits {m : Machine} (h : m.processor.Waits) (budget : Nat) :
    IsLeast {d | 4 ∣ d ∧ budget ≤ d} (m.run budget).duration := by
  rw [run_of_waits h, steps_of_waits h]
  refine ⟨⟨⟨_, rfl⟩, ?_⟩, ?_⟩
  · show budget ≤ 4 * ((budget + 3) / 4)
    omega
  · rintro d ⟨⟨j, rfl⟩, hd⟩
    show 4 * ((budget + 3) / 4) ≤ 4 * j
    omega

/-- A run that waits fits into 64 bits if its budget is four less than what does not. -/
lemma Machine.run_lt_limit_of_waits {m : Machine} (h : m.processor.Waits) {budget : Nat}
    (hbudget : budget + 4 ≤ Ticks.limit) : (m.run budget).duration < Ticks.limit := by
  have hlast : Ticks.limit - 4 ∈ {d | 4 ∣ d ∧ budget ≤ d} :=
    ⟨by decide, Nat.le_sub_of_add_le hbudget⟩
  exact Nat.lt_of_le_of_lt ((isLeast_run_of_waits h budget).2 hlast) (by decide)

/-! ## The end of a wait -/

/-- During a wait nothing is held off. -/
lemma Processor.interrupts_waited (p : Processor) {n : Nat} (hn : 0 < n) :
    (p.waited n).interrupts = { p.interrupts with deferred := false, held := false } :=
  if_neg hn.ne'

/-- The interrupt that a command requests, if it requests one. -/
def Command.requested? (config : Config) : Command → Option Interrupt
  | .nmi => some .nonMaskable
  | .interrupt data => some (.maskable data)
  | .requestInterrupt => some (.maskable config.interruptByte)
  | _ => none

/-- A non-maskable interrupt ends a wait. -/
lemma Processor.accepts_nmi_waited (p : Processor) {n : Nat} (hn : 0 < n) :
    (p.waited n).nmi.accepts? = some .nonMaskable := by
  refine (Interrupts.poll_eq_nonMaskable _ _).2 ⟨rfl, ?_⟩
  show ¬ (p.waited n).interrupts.held = true
  rw [p.interrupts_waited hn]
  exact Bool.false_ne_true

/-- A maskable interrupt that is let in ends a wait. -/
lemma Processor.Waits.accepts_interrupt {p : Processor} (h : p.Waits) {n : Nat} (hn : 0 < n)
    (hiff1 : p.registers.iff1 = true) (data : UInt8) :
    ((p.waited n).interrupt data).accepts? = some (.maskable data) := by
  have hinterrupts : ((p.waited n).interrupt data).interrupts =
      { p.interrupts with request := some data, deferred := false, held := false } := by
    rw [interrupt, p.interrupts_waited hn]
    rfl
  refine (Interrupts.poll_eq_maskable _ _ data).2 ⟨?_, hiff1, ?_⟩
  · rw [hinterrupts, Ne, Interrupts.poll_eq_nonMaskable, h.nmi]
    exact fun hfound => Bool.false_ne_true hfound.1
  · rw [hinterrupts]
    exact ⟨rfl, Bool.false_ne_true, Bool.false_ne_true⟩

/-- A request changes only what waits. -/
lemma Machine.perform_of_requested {action : Command} {config : Config} {i : Interrupt}
    (h : action.requested? config = some i) (m : Machine) :
    ∃ interrupts, m.perform action = m.onProcessor fun p => { p with interrupts } := by
  cases action with
  | nmi | interrupt | requestInterrupt => exact ⟨_, rfl⟩
  | _ => cases h

/-- What is requested during a wait is accepted by the next step, unless it is shut out. -/
lemma Machine.accepted?_of_requested {m : Machine} (h : m.processor.Waits) {n : Nat} (hn : 0 < n)
    {action : Command} {i : Interrupt} (haction : action.requested? m.processor.config = some i)
    (henabled : i = .nonMaskable ∨ m.processor.registers.iff1 = true) :
    ((m.steps n).machine.perform action).accepted? = some i := by
  rw [steps_of_waits h, accepted?_eq]
  cases action with
  | nmi =>
    cases haction
    exact m.processor.accepts_nmi_waited hn
  | interrupt data =>
    cases haction
    exact h.accepts_interrupt hn (henabled.resolve_left nofun) data
  | requestInterrupt =>
    cases haction
    exact h.accepts_interrupt hn (henabled.resolve_left nofun) _
  | _ => cases haction

/-! ## The beginning of a wait -/

namespace Machine

/-- Only a halt makes a machine wait, and the program counter is behind it then. -/
lemma halts_at {before : Machine} (hrunning : before.processor.registers.halted = false)
    (hhalted : before.next.processor.registers.halted = true) :
    let pc := before.processor.registers.pc
    let pc' := before.next.processor.registers.pc
    before.read pc = 0x76 ∧ pc' = pc + 1 ∨
      (∃ x : Index, before.read pc = x.prefixByte) ∧ before.read (pc + 1) = 0x76 ∧ pc' = pc + 2 := by
  intro pc pc'
  obtain ⟨i, haccepts, -⟩ | ⟨-, hwaits, -⟩ | ⟨hready, -⟩ :=
    before.processor.step_cases before.board
  · rw [(next_of_accepted (before.accepted?_eq.trans haccepts)).1] at hhalted
    cases hhalted
  · rw [hrunning] at hwaits
    cases hwaits
  · set i := decodeAt before.board pc
    have hhalt : i.operation = .halt := by
      refine Operation.eq_halt_of_control (c := before.processor.registers.control) hrunning ?_
      rw [← control_next_of_ready hready]
      exact hhalted
    obtain ⟨hpc, -⟩ := next_of_halt hready hhalt
    have hfirst : MemoryBus.codeAt before.board pc 0 = before.read pc := codeAt_zero before.board pc
    obtain ⟨hopcode, hlength⟩ | ⟨⟨x, hprefix⟩, hopcode, hlength⟩ :=
      (encoding_decode (MemoryBus.codeAt before.board pc)).cases_halt hhalt
    · rw [show i.length = 1 from hlength] at hpc
      exact Or.inl ⟨hfirst.symm.trans hopcode, hpc⟩
    · rw [show i.length = 2 from hlength] at hpc
      exact Or.inr ⟨⟨x, hfirst.symm.trans hprefix⟩, hopcode, hpc⟩

/-! ## The law -/

/-- **The law of waiting.**  A halted processor whose interrupts are not requested, or shut out, waits for
any number of steps.  Each takes four T-states and looks at no bus; the refresh counter counts, the time goes
on, and nothing else changes.  A run is as many such steps as its budget needs, and its T-states fit into 64
bits if the budget is four less than what does not.  From the first step on, a request from outside that is
not shut out is accepted by the next step, which ends the wait and puts the program counter on the stack.
That has stayed where it was, and if the processor was halted by a step, then by the opcode for it, which may
stand behind an index prefix, and the program counter is right behind it. -/
theorem wait_law {m : Machine} (h : m.processor.Waits) :
    let p := m.processor
    let k := p.registers
    (∀ n, m.steps n =
        { machine := { m with processor := p.waited n }, duration := 4 * n, events := #[] } ∧
      (∃ r, (p.waited n).registers = { k with r } ∧ Counted k.r n r) ∧
      (p.waited n).interrupts.nmi = p.interrupts.nmi ∧
      (p.waited n).interrupts.request = p.interrupts.request ∧
      (p.waited n).config = p.config ∧ (p.waited n).ticks = p.ticks + 4 * n ∧
      ∀ (β : Type) [Bus β] (bus : β),
        (p.waited n).step bus = { processor := p.waited (n + 1), bus, duration := 4 } ∧
        (p.waited n).accesses bus = #[]) ∧
    (∀ budget, m.run budget = m.steps ((budget + 3) / 4) ∧
      IsLeast {d | 4 ∣ d ∧ budget ≤ d} (m.run budget).duration ∧
      (budget + 4 ≤ Ticks.limit → (m.run budget).duration < Ticks.limit)) ∧
    (∀ n action i, 0 < n → action.requested? p.config = some i → i = .nonMaskable ∨ k.iff1 = true →
      let requested := (m.steps n).machine.perform action
      requested.accepted? = some i ∧ requested.next = requested.entered i ∧
      requested.next.processor.registers.halted = false ∧
      requested.next.processor.registers.sp = k.sp - 2 ∧
      requested.next.board.memory = m.board.memory.push k.sp k.pc) ∧
    (∀ before : Machine, before.processor.registers.halted = false → before.next = m →
      let pc := before.processor.registers.pc
      before.read pc = 0x76 ∧ k.pc = pc + 1 ∨
        (∃ x : Index, before.read pc = x.prefixByte) ∧ before.read (pc + 1) = 0x76 ∧ k.pc = pc + 2) := by
  intro p k
  refine ⟨fun n => ⟨steps_of_waits h n, ⟨_, rfl, p.counted_waited n⟩, p.nmi_waited n, p.request_waited n,
      rfl, rfl, fun β _ bus => ⟨h.step_waited bus n, h.accesses_waited bus n⟩⟩,
    fun budget => ⟨run_of_waits h budget, isLeast_run_of_waits h budget, run_lt_limit_of_waits h⟩,
    fun n action i hn haction henabled => ?_, ?_⟩
  · intro requested
    have haccepted := accepted?_of_requested h hn haction henabled
    obtain ⟨hnext, -⟩ := next_of_accepted haccepted
    obtain ⟨interrupts, hrequested⟩ := perform_of_requested haction (m.steps n).machine
    refine ⟨haccepted, hnext, ?_⟩
    rw [hnext, hrequested, steps_of_waits h]
    exact ⟨rfl, rfl, rfl⟩
  · rintro before hrunning rfl
    exact halts_at hrunning h.halted

/-- A prefixed halt with a maskable request shut out, which a non-maskable one ends after three hundred
steps. -/
theorem wait_law_nmi :
    let before : Machine :=
      { processor := { interrupts := { request := some 0xFF } }
        board := { memory := (Memory.zero.write 0 0xDD).write 1 0x76 } }
    let m := before.next
    m.processor.Waits ∧ m.processor.registers.pc = 2 ∧ (m.run 801).duration = 804 ∧
      (m.steps 300).duration = 1200 ∧ (m.steps 300).machine.processor.registers.r = 46 ∧
      ((m.steps 300).machine.perform .nmi).accepted? = some .nonMaskable ∧
      ((m.steps 300).machine.perform .nmi).next.board.memory =
        m.board.memory.push m.processor.registers.sp 2 := by
  intro before m
  have h : m.processor.Waits := by
    refine ⟨?_, ?_, Or.inr ?_⟩ <;> decide +kernel
  obtain ⟨hsteps, hrun, hrequest, hbefore⟩ := wait_law h
  have hpc : m.processor.registers.pc = 2 := by
    obtain ⟨hhalt, -⟩ | ⟨-, -, hbehind⟩ := hbefore before rfl rfl
    · exact absurd hhalt (by decide +kernel)
    · exact hbehind
  have hleast : IsLeast {d | 4 ∣ d ∧ 801 ≤ d} 804 := by
    refine ⟨⟨by decide, by decide⟩, ?_⟩
    rintro d ⟨⟨j, rfl⟩, hd⟩
    omega
  obtain ⟨haccepted, -, -, -, hmemory⟩ := hrequest 300 .nmi .nonMaskable (by decide) rfl (Or.inl rfl)
  rw [hpc] at hmemory
  refine ⟨h, hpc, (hrun 801).2.1.unique hleast, ?_, ?_, haccepted, hmemory⟩
  · rw [(hsteps 300).1]
  · rw [(hsteps 300).1]
    decide +kernel

end Machine

end Z80

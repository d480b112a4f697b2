import Mathlib.Data.List.Induction
import Z80.Proofs.Footprint
import Z80.Proofs.Repeat
import Z80.Proofs.Word

/-!
# Repeating transfers

A repeating transfer copies one byte in each step and goes back to its own first byte until BC is
zero, so interrupts can be accepted between any two bytes.  `Machine.AtExtended.next_of_transfer` gives
the machine after one byte.

Where a non-maskable interrupt is served by returning at once, it makes no difference before which
bytes it comes (`Machine.transfer_restarts`).  The proof compares the interrupted transfer with the
undisturbed one: they stay alike (`Machine.Resembles`) under the copying of a byte and under an
interruption, as long as the stack, the code and the two ranges do not get into each other's way
(`Machine.Restartable`).
-/

namespace Z80

/-! ## Directions -/

namespace Direction

/-- The opcode of the repeating transfer in a direction. -/
def transferOpcode : Direction → UInt8
  | .up => 0xB0
  | .down => 0xB8

variable (d : Direction)

/-- The opcode stands for the repeating transfer. -/
lemma extendedOperation_transferOpcode :
    extendedOperation d.transferOpcode = .blockTransfer d true := by
  cases d <;> rfl

end Direction

/-! ## One byte -/

namespace Registers

/-- Going back by the length of the instruction leads to its first byte. -/
lemma rewindIf_of_pc {k : Registers} {pc : UInt16} (again : Bool) (h : k.pc = pc + 2) :
    k.rewindIf again = { k with pc := if again then pc else pc + 2 } := by
  have hback : k.pc - 2 = pc := by grind
  cases again with
  | false => rw [← h]; rfl
  | true => rw [rewindIf, if_pos rfl, hback]; rfl

/-- The registers after the repeating transfer has copied the byte `v`. -/
def transferred (k : Registers) (d : Direction) (v : UInt8) : Registers :=
  let n := v + k.a
  let again := k.bc != 1
  { ((k.setHL (d.step k.hl)).setDE (d.step k.de)).setBC (k.bc - 1) with
    f := { k.f with y := bit n 1, h := false, x := bit n 3, p := again, n := false }
    pc := if again then k.pc else k.pc + 2
    r := (k.advanceRefresh 2).r
    wz := if again then k.pc + 1 else k.wz }

variable (k : Registers) (d : Direction) (v : UInt8)

@[simp] lemma hl_transferred : (k.transferred d v).hl = d.step k.hl := word_high_low _

@[simp] lemma de_transferred : (k.transferred d v).de = d.step k.de := word_high_low _

@[simp] lemma bc_transferred : (k.transferred d v).bc = k.bc - 1 := word_high_low _

end Registers

namespace Machine

variable {m : Machine} {d : Direction}

/-- The byte that a transfer copies next. -/
def source (m : Machine) : UInt8 :=
  m.read m.processor.registers.hl

/-- The machine after the repeating transfer has copied one byte. -/
def transferred (m : Machine) (d : Direction) : Machine :=
  let k := m.processor.registers
  { processor :=
      { m.processor.looked with
        registers := k.transferred d m.source
        ticks := m.processor.ticks + if k.bc != 1 then 21 else 16 }
    board := { m.board with memory := m.board.memory.write k.de m.source } }

/-- The effect of the repeating transfer, but for the address latch, which comes after it. -/
lemma extendedEffect_transfer (m : Machine) (d : Direction) :
    let k := m.processor.registers
    m.extendedEffect (.blockTransfer d true) =
      { registers := { k.transferred d m.source with wz := k.wz }
        store := .byte k.de m.source
        taken := k.bc != 1 } := by
  intro k
  have hagain : (true && k.bc - 1 != 0) = (k.bc != 1) := by
    rw [Bool.true_and, word_sub_one_ne_zero]
  show Effect.mk
    (Registers.rewindIf
      { ((k.fetchedTwo.setHL (d.step k.hl)).setDE (d.step k.de)).setBC (k.bc - 1) with
        f := { k.f with
          y := bit (m.source + k.a) 1
          h := false
          x := bit (m.source + k.a) 3
          p := k.bc - 1 != 0
          n := false } }
      (true && k.bc - 1 != 0)) _ _ _ (true && k.bc - 1 != 0) = _
  rw [Registers.rewindIf_of_pc _ rfl, hagain, word_sub_one_ne_zero]
  rfl

/-- A step of the repeating transfer copies one byte. -/
lemma AtExtended.next_of_transfer (h : m.AtExtended (.blockTransfer d true)) :
    m.next = m.transferred d ∧
      m.step.duration = if m.processor.registers.bc != 1 then 21 else 16 := by
  have hduration : m.step.duration = if m.processor.registers.bc != 1 then 21 else 16 := by
    rw [h.duration_eq, m.extendedEffect_transfer d]
    show 4 + 12 + (if (m.processor.registers.bc != 1) = true then 5 else 0) = _
    split <;> rfl
  refine ⟨?_, hduration⟩
  rw [h.next_eq, hduration, m.extendedEffect_transfer d]
  rfl

end Machine

/-! ## Transfers that can be interrupted -/

namespace Registers

/-- The addresses of the instruction at the program counter and of the return that serves a
non-maskable interrupt. -/
def codeAddresses (k : Registers) : List UInt16 :=
  [k.pc, k.pc + 1, 0x66, 0x67]

variable (k : Registers) (d : Direction) (v : UInt8)

/-- The four addresses one by one. -/
lemma forall_codeAddresses {P : UInt16 → Prop} (h : ∀ a ∈ k.codeAddresses, P a) :
    P k.pc ∧ P (k.pc + 1) ∧ P 0x66 ∧ P 0x67 := by
  simpa [codeAddresses] using h

@[simp] lemma pushAddresses_transferred : (k.transferred d v).pushAddresses = k.pushAddresses := rfl

/-- The instruction stays where it is until the last byte has been copied. -/
lemma pc_transferred : (k.transferred d v).pc = if k.bc = 1 then k.pc + 2 else k.pc := by
  show (if (k.bc != 1) = true then k.pc else k.pc + 2) = _
  simp only [bne_iff_ne, ite_not]

end Registers

namespace Machine

/-- The machine is about to execute a repeating transfer, interrupts are shut out, and a non-maskable
one returns at once.  The stack, the code and the ranges of the transfer do not get into each other's
way. -/
structure Restartable (m : Machine) (d : Direction) : Prop where
  /-- The processor does not wait. -/
  halted : m.processor.registers.halted = false
  /-- No interrupt waits. -/
  idle : m.interrupts = .idle
  /-- Maskable interrupts are shut out. -/
  enable : m.processor.registers.iff1 = false
  /-- They have been shut out before. -/
  saved : m.processor.registers.iff2 = false
  /-- The prefix comes first. -/
  first : m.read m.processor.registers.pc = 0xED
  /-- The opcode comes second. -/
  second : m.read (m.processor.registers.pc + 1) = d.transferOpcode
  /-- The service address holds the prefix of a return. -/
  serviceFirst : m.read 0x66 = 0xED
  /-- The opcode of the return comes second. -/
  serviceSecond : m.read 0x67 = 0x45
  /-- Some bytes are left. -/
  left : m.processor.registers.bc ≠ 0
  /-- The top of the stack is not in the code. -/
  stackCode : ∀ a ∈ m.processor.registers.pushAddresses, a ∉ m.processor.registers.codeAddresses
  /-- No byte is copied from the top of the stack. -/
  stackSource : ∀ i < m.processor.registers.bc.toNat,
    d.advance m.processor.registers.hl i ∉ m.processor.registers.pushAddresses
  /-- No byte is copied to the top of the stack. -/
  stackTarget : ∀ i < m.processor.registers.bc.toNat,
    d.advance m.processor.registers.de i ∉ m.processor.registers.pushAddresses
  /-- No byte is copied to the code. -/
  targetCode : ∀ i < m.processor.registers.bc.toNat,
    d.advance m.processor.registers.de i ∉ m.processor.registers.codeAddresses

namespace Restartable

variable {m : Machine} {d : Direction} (h : m.Restartable d)

include h

/-- Some byte is left. -/
lemma bc_pos : 0 < m.processor.registers.bc.toNat :=
  Nat.pos_of_ne_zero fun hzero => h.left (UInt16.toNat_inj.1 hzero)

/-- The transfer is the next instruction. -/
lemma atExtended : m.AtExtended (.blockTransfer d true) where
  ready := by
    refine ⟨?_, h.halted⟩
    show (m.interrupts.poll _).1 = none
    rw [h.idle]
    rfl
  first := h.first
  second := by rw [h.second, d.extendedOperation_transferOpcode]
  size := rfl

/-- The next step copies a byte. -/
lemma next_eq : m.next = m.transferred d :=
  h.atExtended.next_of_transfer.1

/-- The byte is not copied over the code. -/
lemma read_next : ∀ a ∈ m.processor.registers.codeAddresses, m.next.read a = m.read a := by
  intro a ha
  have hapart : a ≠ m.processor.registers.de := by
    rintro rfl
    have hcode := h.targetCode 0 h.bc_pos
    rw [Direction.advance_zero] at hcode
    exact hcode ha
  rw [h.next_eq]
  exact Memory.read_write_of_ne _ _ hapart

/-- The transfer goes on in the same way until the last byte has been copied. -/
lemma next (hbc : m.processor.registers.bc ≠ 1) : m.next.Restartable d := by
  set k := m.processor.registers
  have hregisters : m.next.processor.registers = k.transferred d m.source := by
    rw [h.next_eq]
    rfl
  have hpc : m.next.processor.registers.pc = k.pc := by
    rw [hregisters, k.pc_transferred, if_neg hbc]
  have hcode : m.next.processor.registers.codeAddresses = k.codeAddresses := by
    rw [Registers.codeAddresses, hpc]
    rfl
  obtain ⟨hfirst, hsecond, hserviceFirst, hserviceSecond⟩ := k.forall_codeAddresses h.read_next
  -- What is left of a range is the range without its first address.
  have hleft : (k.bc - 1).toNat = k.bc.toNat - 1 :=
    UInt16.toNat_sub_of_le _ _ (UInt16.le_iff_toNat_le.2 h.bc_pos)
  have hrest : ∀ i < m.next.processor.registers.bc.toNat, i + 1 < k.bc.toNat := by
    intro i hi
    rw [hregisters, k.bc_transferred, hleft] at hi
    exact Nat.add_lt_of_lt_sub hi
  exact
    { halted := by rw [hregisters]; exact h.halted
      idle := by
        rw [h.next_eq]
        show (m.interrupts.poll _).2 = _
        rw [h.idle]
        rfl
      enable := by rw [hregisters]; exact h.enable
      saved := by rw [hregisters]; exact h.saved
      first := by rw [hpc]; exact hfirst.trans h.first
      second := by rw [hpc]; exact hsecond.trans h.second
      serviceFirst := hserviceFirst.trans h.serviceFirst
      serviceSecond := hserviceSecond.trans h.serviceSecond
      left := by
        rw [hregisters, k.bc_transferred]
        exact fun hzero => hbc ((word_sub_one_eq_zero _).1 hzero)
      stackCode := by rw [hcode, hregisters]; exact h.stackCode
      stackSource := by
        intro i hi
        rw [hregisters, k.hl_transferred, k.pushAddresses_transferred, d.advance_step]
        exact h.stackSource _ (hrest i hi)
      stackTarget := by
        intro i hi
        rw [hregisters, k.de_transferred, k.pushAddresses_transferred, d.advance_step]
        exact h.stackTarget _ (hrest i hi)
      targetCode := by
        intro i hi
        rw [hcode, hregisters, k.de_transferred, d.advance_step]
        exact h.targetCode _ (hrest i hi) }

/-- The registers that place the transfer, after some of its bytes have been copied.  If some are
left, the transfer goes on in the same way. -/
lemma registers_steps (j : Nat) (hj : j ≤ m.processor.registers.bc.toNat) :
    let k := m.processor.registers
    let reached := (m.steps j).machine
    reached.processor.registers.pc = (if j = k.bc.toNat then k.pc + 2 else k.pc) ∧
      reached.processor.registers.sp = k.sp ∧
      reached.processor.registers.bc = k.bc - UInt16.ofNat j ∧
      (j < k.bc.toNat → reached.Restartable d) := by
  intro k
  induction j with
  | zero =>
    have hsome : 0 ≠ k.bc.toNat := Nat.ne_of_lt h.bc_pos
    rw [if_neg hsome]
    exact ⟨rfl, rfl, (UInt16.sub_zero k.bc).symm, fun _ => h⟩
  | succ j ih =>
    have hj : j < k.bc.toNat := hj
    have hbefore : j ≠ k.bc.toNat := Nat.ne_of_lt hj
    obtain ⟨hpc, hsp, hbc, hrestartable⟩ := ih (Nat.le_of_lt hj)
    rw [if_neg hbefore] at hpc
    specialize hrestartable hj
    -- One byte is left just before the last step.
    have hlast : k.bc - UInt16.ofNat j = 1 ↔ j + 1 = k.bc.toNat := by
      rw [← UInt16.toNat_inj, toNat_sub_ofNat (Nat.le_of_lt hj), UInt16.toNat_one]
      omega
    have hregisters : (m.steps (j + 1)).machine.processor.registers =
        (m.steps j).machine.processor.registers.transferred d (m.steps j).machine.source := by
      rw [machine_steps_succ, hrestartable.next_eq]
      rfl
    refine ⟨?_, ?_, ?_, fun hmore => ?_⟩
    · rw [hregisters, Registers.pc_transferred, hbc, hpc]
      simp only [hlast]
    · rw [hregisters]
      exact hsp
    · rw [hregisters, Registers.bc_transferred, hbc, UInt16.ofNat_add]
      grind
    · rw [machine_steps_succ]
      refine hrestartable.next ?_
      rw [hbc, Ne, hlast]
      exact Nat.ne_of_lt hmore

end Restartable

/-! ## Interruptions -/

/-- The machine with another refresh counter, another address latch and other memory, at a later
time. -/
def delayed (m : Machine) (r : UInt8) (wz : UInt16) (memory : Memory) (delay : Nat) : Machine where
  processor :=
    { m.processor with
      registers := { m.processor.registers with r, wz }
      ticks := m.processor.ticks + delay }
  board := { m.board with memory }

/-- The second machine is like the first one at a later time, but for the refresh counter, the address
latch and the bytes on top of the stack. -/
def Resembles (m m' : Machine) (delay : Nat) : Prop :=
  ∃ r wz memory, m' = m.delayed r wz memory delay ∧
    ∀ a ∉ m.processor.registers.pushAddresses, memory.read a = m.read a

namespace Resembles

variable {m m' : Machine} {d : Direction} {delay : Nat}

/-- A machine is like itself. -/
lemma refl (m : Machine) : m.Resembles m 0 :=
  ⟨m.processor.registers.r, m.processor.registers.wz, m.board.memory, rfl, fun _ _ => rfl⟩

/-- Delays add up. -/
lemma trans {m'' : Machine} {delay' : Nat} (h : m.Resembles m' delay)
    (h' : m'.Resembles m'' delay') : m.Resembles m'' (delay + delay') := by
  obtain ⟨r, wz, memory, rfl, hmemory⟩ := h
  obtain ⟨r', wz', memory', rfl, hmemory'⟩ := h'
  refine ⟨r', wz', memory', ?_, fun a ha => (hmemory' a ha).trans (hmemory a ha)⟩
  rw [delayed, delayed, delayed, Nat.add_assoc]

/-- A transfer that can be interrupted can still be. -/
lemma restartable (h : m.Resembles m' delay) (hm : m.Restartable d) : m'.Restartable d := by
  obtain ⟨r, wz, memory, rfl, hmemory⟩ := h
  have hcode : ∀ a ∈ m.processor.registers.codeAddresses, memory.read a = m.read a :=
    fun a ha => hmemory a fun hstack => hm.stackCode a hstack ha
  obtain ⟨hfirst, hsecond, hserviceFirst, hserviceSecond⟩ := Registers.forall_codeAddresses _ hcode
  exact
    { hm with
      first := hfirst.trans hm.first
      second := hsecond.trans hm.second
      serviceFirst := hserviceFirst.trans hm.serviceFirst
      serviceSecond := hserviceSecond.trans hm.serviceSecond }

/-- Copying a byte leaves the machines alike. -/
lemma next (h : m.Resembles m' delay) (hm : m.Restartable d) : m.next.Resembles m'.next delay := by
  have hnext' : m'.next = m'.transferred d := (h.restartable hm).next_eq
  obtain ⟨r, wz, memory, rfl, hmemory⟩ := h
  set k := m.processor.registers
  -- Both copy the same byte, because it is not on top of the stack.
  have hsource : (m.delayed r wz memory delay).source = m.source := by
    have hhl := hm.stackSource 0 hm.bc_pos
    rw [Direction.advance_zero] at hhl
    exact hmemory _ hhl
  rw [hm.next_eq, hnext']
  let copied := ({ k with r, wz } : Registers).transferred d m.source
  refine ⟨copied.r, copied.wz, memory.write k.de m.source, ?_, ?_⟩
  · rw [transferred, hsource]
    show Machine.mk
      { m.processor.looked with
        registers := copied
        ticks := m.processor.ticks + delay + if k.bc != 1 then 21 else 16 }
      { m.board with memory := memory.write k.de m.source } = _
    rw [Nat.add_right_comm]
    rfl
  · intro a ha
    show (memory.write k.de m.source).read a = (m.board.memory.write k.de m.source).read a
    rw [Memory.read_write, Memory.read_write]
    split
    · rfl
    · exact hmemory a ha

end Resembles

/-- A non-maskable interrupt is served in two steps, which take 25 T-states and leave the machine as it
was. -/
lemma Restartable.interruption {m : Machine} {d : Direction} (h : m.Restartable d) :
    m.Resembles (m.perform .nmi).next.next 25 := by
  set k := m.processor.registers
  set waiting := m.perform .nmi
  have haccepted : waiting.accepted? = some .nonMaskable := by
    rw [accepted?_eq]
    show ((m.interrupts.latchNmi).poll _).1 = _
    rw [h.idle]
    rfl
  have hcode : ∀ a ∈ k.codeAddresses, (waiting.entered .nonMaskable).read a = m.read a :=
    fun a ha => m.board.memory.read_push_of_notMem k.pc fun hstack => h.stackCode a hstack ha
  obtain ⟨-, -, hfirst, hsecond⟩ := k.forall_codeAddresses hcode
  have hserves : waiting.ServesAtOnce .nonMaskable :=
    { accepted := haccepted
      first := hfirst.trans h.serviceFirst
      second := by
        show (waiting.entered .nonMaskable).read 0x67 &&& 0xC7 = 0x45
        rw [hsecond, h.serviceSecond]
        rfl }
  have hback : (waiting.entered .nonMaskable).next = waiting.served .nonMaskable none := by
    have hnone : m.interrupts.request = none := congrArg Interrupts.request h.idle
    rw [← hnone]
    exact hserves.next_entered _
  have hregisters : ({ k.advanceRefresh 3 with
      wz := k.pc, iff1 := k.iff2, iff2 := k.iff2, halted := false } : Registers) =
      { k with r := (k.advanceRefresh 3).r, wz := k.pc } := by
    simp only [k, h.saved, h.enable, h.halted]
    rfl
  have hidle : ({ request := none } : Interrupts) = m.processor.interrupts := h.idle.symm
  rw [(next_of_accepted haccepted).1, hback]
  refine ⟨(k.advanceRefresh 3).r, k.pc, m.board.memory.push k.sp k.pc, ?_,
    fun a => m.board.memory.read_push_of_notMem k.pc⟩
  show Machine.mk
    { m.processor with
      registers := { k.advanceRefresh 3 with
        wz := k.pc, iff1 := k.iff2, iff2 := k.iff2, halted := false }
      interrupts := { request := none }
      ticks := m.processor.ticks + 11 + 14 }
    { m.board with memory := m.board.memory.push k.sp k.pc } = _
  rw [hregisters, hidle]
  rfl

end Machine

/-! ## Any interruptions -/

/-- The commands that let a transfer copy one byte, and interrupt it before that if required. -/
def Command.iteration (interrupted : Bool) : List Command :=
  if interrupted then [.nmi, .step, .step, .step] else [.step]

/-- Each interruption costs two steps. -/
lemma Command.countP_iterations (interruptions : List Bool) :
    (interruptions.flatMap Command.iteration).countP Command.steps =
      interruptions.length + 2 * interruptions.count true := by
  induction interruptions with
  | nil => rfl
  | cons interrupted rest ih =>
    rw [List.flatMap_cons, List.countP_append, ih, List.length_cons]
    cases interrupted with
    | false =>
      show 1 + _ = _
      rw [List.count_cons_of_ne (by decide)]
      omega
    | true =>
      show 3 + _ = _
      rw [List.count_cons_self]
      omega

namespace Machine

variable {m : Machine} {d : Direction}

/-- Copying one byte leaves the machines alike, also if one of them is interrupted before. -/
lemma Resembles.iteration {m' : Machine} {delay : Nat} (h : m.Resembles m' delay)
    (hm : m.Restartable d) (interrupted : Bool) :
    m.next.Resembles (m'.performAll (Command.iteration interrupted))
      (delay + 25 * [interrupted].count true) := by
  cases interrupted with
  | false => exact h.next hm
  | true =>
    have hserved : m.Resembles (m'.perform .nmi).next.next (delay + 25) :=
      h.trans (h.restartable hm).interruption
    exact hserved.next hm

/-- A transfer that is interrupted stays like the undisturbed one. -/
lemma Restartable.resembles_performAll (h : m.Restartable d) (interruptions : List Bool)
    (hlength : interruptions.length ≤ m.processor.registers.bc.toNat) :
    (m.steps interruptions.length).machine.Resembles
      (m.performAll (interruptions.flatMap Command.iteration))
      (25 * interruptions.count true) := by
  induction interruptions using List.reverseRecOn with
  | nil => exact Resembles.refl m
  | append_singleton before interrupted ih =>
    rw [List.length_append, List.length_singleton] at hlength ⊢
    have hreached : (m.steps before.length).machine.Restartable d :=
      (h.registers_steps _ (Nat.le_of_lt hlength)).2.2.2 hlength
    have hlast := (ih (Nat.le_of_lt hlength)).iteration hreached interrupted
    rw [machine_steps_succ, List.flatMap_append, List.flatMap_singleton, performAll,
      List.foldl_append, List.count_append, Nat.mul_add]
    exact hlast

/-- **Repeating transfers are restartable.**  Non-maskable interrupts that are served by returning at
once may come before any bytes of a repeating transfer.  After each byte, and so at the end, all
registers but the refresh counter and the address latch, the record of port writes and the memory but
for the two bytes on top of the stack are as without interruptions.  Each interruption costs two steps
and 25 T-states. -/
theorem transfer_restarts (h : m.Restartable d) (interruptions : List Bool)
    (hlength : interruptions.length ≤ m.processor.registers.bc.toNat) :
    let k := m.processor.registers
    let actions := interruptions.flatMap Command.iteration
    let plain := (m.steps interruptions.length).machine
    let interrupted := m.performAll actions
    plain.processor.registers.pc =
        (if interruptions.length = k.bc.toNat then k.pc + 2 else k.pc) ∧
      plain.processor.registers.bc = k.bc - UInt16.ofNat interruptions.length ∧
      (∃ r wz, interrupted.processor.registers = { plain.processor.registers with r, wz }) ∧
      interrupted.portWrites = plain.portWrites ∧
      (∀ a ∉ k.pushAddresses, interrupted.read a = plain.read a) ∧
      actions.countP Command.steps = interruptions.length + 2 * interruptions.count true ∧
      interrupted.processor.ticks = plain.processor.ticks + 25 * interruptions.count true := by
  intro k actions plain interrupted
  obtain ⟨hpc, hsp, hbc, -⟩ := h.registers_steps interruptions.length hlength
  have hstack : plain.processor.registers.pushAddresses = k.pushAddresses := by
    rw [Registers.pushAddresses, hsp]
    rfl
  obtain ⟨r, wz, memory, halike, hmemory⟩ := h.resembles_performAll interruptions hlength
  rw [hstack] at hmemory
  refine ⟨hpc, hbc, ⟨r, wz, ?_⟩, ?_, ?_, Command.countP_iterations _, ?_⟩
  · exact (congrArg (fun m => m.processor.registers) halike :)
  · exact (congrArg portWrites halike :)
  · intro a ha
    exact (congrArg (fun m => m.read a) halike).trans (hmemory a ha)
  · exact (congrArg (fun m => m.processor.ticks) halike :)

/-- Two bytes are copied downwards within overlapping ranges, with an interruption before each. -/
theorem transfer_restarts_down :
    let registers : Registers :=
      { Registers.powerOn with b := 0, c := 2, d := 0, e := 0x12, h := 0, l := 0x11, sp := 0x81 }
    let code : Memory := (Memory.zero.write 0x00 0xED).write 0x01 0xB8
    let service : Memory := (code.write 0x66 0xED).write 0x67 0x45
    let memory : Memory := (service.write 0x10 0xAA).write 0x11 0xBB
    let m : Machine := { processor := { registers }, board := { memory } }
    let interrupted := m.performAll ([true, true].flatMap Command.iteration)
    m.Restartable .down ∧ [true, true].length ≤ registers.bc.toNat ∧
      interrupted.processor.registers.pc = 2 ∧ interrupted.processor.registers.bc = 0 ∧
      interrupted.read 0x11 = (m.steps 2).machine.read 0x11 ∧
      interrupted.processor.ticks = (m.steps 2).machine.processor.ticks + 50 := by
  intro registers code service memory m interrupted
  have hread : ∀ a, m.read a = memory.read a := fun _ => rfl
  have hfirst : m.read 0 = 0xED := by simp [hread, memory, service, code, Memory.read_write]
  have hsecond : m.read 1 = 0xB8 := by simp [hread, memory, service, code, Memory.read_write]
  have htop : m.processor.registers.pushAddresses = [0x80, 0x7F] := by decide
  have hcode : m.processor.registers.codeAddresses = [0, 1, 0x66, 0x67] := by decide
  have hrestartable : m.Restartable .down :=
    { halted := rfl
      idle := rfl
      enable := rfl
      saved := rfl
      first := hfirst
      second := hsecond
      serviceFirst := by simp [hread, memory, service, Memory.read_write]
      serviceSecond := by simp [hread, memory, service, Memory.read_write]
      left := by decide
      stackCode := by simp [htop, hcode]
      stackSource := by decide
      stackTarget := by decide
      targetCode := by decide }
  have hlast : [true, true].length = m.processor.registers.bc.toNat := by decide
  have hlength : [true, true].length ≤ registers.bc.toNat := Nat.le_of_eq hlast
  have hapart : 0x11 ∉ registers.pushAddresses := by decide
  have hnone : m.processor.registers.bc - UInt16.ofNat [true, true].length = 0 := by decide
  obtain ⟨hpc, hbc, ⟨r, wz, hregisters⟩, -, hmemory, -, hticks⟩ :=
    transfer_restarts hrestartable [true, true] hlength
  refine ⟨hrestartable, hlength, ?_, ?_, hmemory 0x11 hapart, hticks⟩
  · rw [hregisters]
    exact hpc.trans (if_pos hlast)
  · rw [hregisters]
    exact hbc.trans hnone

end Machine

end Z80

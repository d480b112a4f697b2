import Z80.Proofs.Acceptance
import Z80.Proofs.ByteOperation
import Z80.Proofs.IndexPrefix
import Z80.Proofs.Lockstep

/-!
# Chains of index prefixes

An index prefix before another one does nothing: it takes the time of an opcode fetch, and it holds
interrupts off at the next look.  A chain of prefixes, of any length and around the end of the address
space, is therefore passed one by one, and no interrupt is accepted before the instruction at its end has
been executed, whatever is requested meanwhile (`prefix_chain`).  That instruction belongs to the last
prefix only; before the prefix of the extended page, even the last one does nothing.

A chain is passed with any commands that request interrupts between its steps.  The induction carries that
every prefix so far has been passed and nothing is accepted next (`InChain`); it is the latch which a
prefix sets that keeps the second half.
-/

namespace Z80

/-! ## Chains -/

/-- A byte that selects an index register. -/
def IsIndexPrefix (v : UInt8) : Prop :=
  v = 0xDD ∨ v = 0xFD

/-- An index prefix is the prefix of one of the two index registers. -/
lemma IsIndexPrefix.exists_index {v : UInt8} (h : IsIndexPrefix v) : ∃ y : Index, v = y.prefixByte := by
  rcases h with rfl | rfl
  · exact ⟨.ix, rfl⟩
  · exact ⟨.iy, rfl⟩

/-- The address after one at a distance. -/
lemma add_ofNat_add_one (w : UInt16) (j : Nat) : w + UInt16.ofNat j + 1 = w + UInt16.ofNat (j + 1) := by
  rw [UInt16.ofNat_add]
  exact UInt16.add_assoc _ _ _

/-- The registers when nothing has been passed. -/
lemma Registers.passed_zero (k : Registers) : k.passed 0 0 = k := by
  show { k.advanceRefresh 0 with pc := k.pc + 0 } = k
  rw [advanceRefresh_zero, UInt16.add_zero]

namespace Machine

/-- From the program counter on, `n` bytes are index prefixes and the next one is not. -/
structure PrefixChain (m : Machine) (n : Nat) : Prop where
  /-- There is a prefix. -/
  pos : 0 < n
  /-- The bytes of the chain are prefixes. -/
  member : ∀ i < n, IsIndexPrefix (m.read (m.processor.registers.pc + UInt16.ofNat i))
  /-- The byte after them is not. -/
  last : ¬ IsIndexPrefix (m.read (m.processor.registers.pc + UInt16.ofNat n))

/-- The byte after the last prefix ends the chain. -/
lemma PrefixChain.last_add_one {m : Machine} {n : Nat} (h : m.PrefixChain n) :
    m.processor.registers.pc + UInt16.ofNat (n - 1) + 1 =
      m.processor.registers.pc + UInt16.ofNat n := by
  rw [add_ofNat_add_one, Nat.sub_add_cancel h.pos]

/-- The number of prefixes of a chain that stand alone: all but the last one, which stands alone only
before the prefix of the extended page. -/
def loneCount (m : Machine) (n : Nat) : Nat :=
  if m.read (m.processor.registers.pc + UInt16.ofNat n) = 0xED then n else n - 1

variable {m : Machine} {n : Nat}

/-- The prefixes that are counted stand alone. -/
lemma PrefixChain.isLonePrefix (h : m.PrefixChain n) {j : Nat} (hj : j < m.loneCount n) :
    let pc := m.processor.registers.pc + UInt16.ofNat j
    IsLonePrefix (m.read pc) (m.read (pc + 1)) := by
  intro pc
  have hnext : pc + 1 = m.processor.registers.pc + UInt16.ofNat (j + 1) := add_ofNat_add_one _ j
  rw [loneCount] at hj
  refine ⟨h.member j (by split at hj <;> omega), ?_⟩
  rw [hnext]
  by_cases hlt : j + 1 < n
  · rcases h.member (j + 1) hlt with hix | hiy
    · exact Or.inl hix
    · exact Or.inr (Or.inl hiy)
  · by_cases hextended : m.read (m.processor.registers.pc + UInt16.ofNat n) = 0xED
    · rw [if_pos hextended] at hj
      obtain rfl : j + 1 = n := by omega
      exact Or.inr (Or.inr hextended)
    · rw [if_neg hextended] at hj
      omega

/-- Behind the prefixes that are counted, none stands alone. -/
lemma PrefixChain.not_isLonePrefix (h : m.PrefixChain n) :
    let pc := m.processor.registers.pc + UInt16.ofNat (m.loneCount n)
    ¬ IsLonePrefix (m.read pc) (m.read (pc + 1)) := by
  intro pc hlone
  obtain ⟨hfirst, hsecond⟩ := hlone
  by_cases hextended : m.read (m.processor.registers.pc + UInt16.ofNat n) = 0xED
  · have hpc : pc = m.processor.registers.pc + UInt16.ofNat n := by
      show _ + UInt16.ofNat (m.loneCount n) = _
      rw [loneCount, if_pos hextended]
    rw [hpc] at hfirst
    exact h.last hfirst
  · have hpc : pc + 1 = m.processor.registers.pc + UInt16.ofNat n := by
      show _ + UInt16.ofNat (m.loneCount n) + 1 = _
      rw [loneCount, if_neg hextended, h.last_add_one]
    rw [hpc] at hsecond
    rcases hsecond with hix | hiy | hed
    · exact h.last (Or.inl hix)
    · exact h.last (Or.inr hiy)
    · exact hextended hed

/-! ## One prefix -/

/-- A prefix that stands alone is passed, and nothing else happens. -/
lemma next_of_lone (h : m.Executes IsLonePrefix) :
    m.step.duration = 4 ∧ m.next.processor.registers = m.processor.registers.passed 1 1 ∧
      m.next.board = m.board := by
  obtain ⟨hready, hfirst, hsecond⟩ := (m.executes_iff IsLonePrefix).1 h
  obtain ⟨y, hy⟩ := IsIndexPrefix.exists_index hfirst
  have hstep : m.step = m.processor.looked.execute { page := .lone, opcode := 0 } m.board := by
    rw [step, Processor.step_of_ready hready, decodeAt, decode_index y hy, decodeIndexed_lone y hsecond]
  rw [next, hstep]
  exact ⟨rfl, rfl, rfl⟩

/-- What waits goes on waiting if nothing is accepted. -/
lemma waiting_next (h : m.accepted? = none) :
    m.next.interrupts.nmi = m.interrupts.nmi ∧ m.next.interrupts.request = m.interrupts.request := by
  refine ⟨Bool.eq_iff_iff.2 ?_, Option.ext fun data => ?_⟩
  · rw [m.nmi_next, h]
    exact and_iff_left nofun
  · rw [m.request_next data, h]
    exact and_iff_left nofun

end Machine

/-! ## Passing a chain -/

namespace Machine

/-- The machine after a number of steps, where the commands of `between j` follow the step numbered
`j`. -/
def stepsWith (m : Machine) (between : Nat → List Command) : Nat → Machine
  | 0 => m
  | j + 1 => (m.stepsWith between j).next.performAll (between j)

/-- The first `j` prefixes of a chain have been passed, nothing else happened on the board and in the
registers, and nothing is accepted next. -/
structure InChain (m : Machine) (j : Nat) (reached : Machine) : Prop where
  /-- The registers have passed the prefixes. -/
  registers : reached.processor.registers =
    m.processor.registers.passed (UInt8.ofNat j) (UInt16.ofNat j)
  /-- The board is as it was. -/
  board : reached.board = m.board
  /-- No interrupt is accepted. -/
  accepted : reached.accepted? = none

variable {m : Machine} {n : Nat}

/-- At the beginning of a chain, no prefix has been passed. -/
lemma InChain.refl (h : m.accepted? = none) : m.InChain 0 m where
  registers := m.processor.registers.passed_zero.symm
  board := rfl
  accepted := h

/-- In a chain, the next step executes what is found after the prefixes that have been passed. -/
lemma InChain.executes {j : Nat} {reached : Machine} (h : m.InChain j reached)
    (hhalted : m.processor.registers.halted = false) (required : UInt8 → UInt8 → Prop) :
    let pc := m.processor.registers.pc + UInt16.ofNat j
    reached.Executes required ↔ required (m.read pc) (m.read (pc + 1)) := by
  intro pc
  have hread : ∀ a, reached.read a = m.read a := fun a => congrArg (fun b => b.memory.read a) h.board
  rw [Executes, h.registers, hread, hread]
  exact ⟨fun hexecutes => hexecutes.2.2, fun hrequired => ⟨h.accepted, hhalted, hrequired⟩⟩

/-- A prefix that stands alone leads to the next one, whatever is requested. -/
lemma InChain.next {j : Nat} {reached : Machine} (h : m.InChain j reached)
    (hlone : reached.Executes IsLonePrefix) {requests : List Command}
    (hrequests : ∀ action ∈ requests, action.isSignal = true) :
    m.InChain (j + 1) (reached.next.performAll requests) := by
  obtain ⟨-, hregisters, hboard⟩ := next_of_lone hlone
  obtain ⟨request, nmi, hperform, -⟩ := exists_performAll_signals reached.next hrequests
  have hlatch : reached.next.interrupts.held = true := reached.held_next.2 hlone
  rw [hperform]
  refine ⟨?_, hboard.trans h.board, ?_⟩
  · show reached.next.processor.registers = _
    rw [hregisters, h.registers, Registers.passed_passed, UInt8.ofNat_add, UInt16.ofNat_add]
    rfl
  · rw [accepted?_eq]
    show (Interrupts.poll { reached.next.interrupts with request, nmi } _).1 = none
    rw [Interrupts.poll, if_pos hlatch]

/-- The whole chain is passed in this way. -/
lemma PrefixChain.inChain (h : m.PrefixChain n) (hhalted : m.processor.registers.halted = false)
    (haccepted : m.accepted? = none) {between : Nat → List Command}
    (hbetween : ∀ j, ∀ action ∈ between j, action.isSignal = true) :
    ∀ j ≤ m.loneCount n, m.InChain j (m.stepsWith between j) := by
  intro j hj
  induction j with
  | zero => exact InChain.refl haccepted
  | succ j ih =>
    have hreached := ih (Nat.le_of_succ_le hj)
    have hlone := (hreached.executes hhalted IsLonePrefix).2 (h.isLonePrefix hj)
    exact hreached.next hlone (hbetween j)

/-- Since its beginning, a chain keeps a non-maskable interrupt waiting. -/
lemma PrefixChain.nmi_iff (h : m.PrefixChain n) (hhalted : m.processor.registers.halted = false)
    (haccepted : m.accepted? = none) {between : Nat → List Command}
    (hbetween : ∀ j, ∀ action ∈ between j, action.isSignal = true) :
    ∀ j ≤ m.loneCount n + 1, (m.stepsWith between j).interrupts.nmi = true ↔
      m.interrupts.nmi = true ∨ ∃ i < j, Command.nmi ∈ between i := by
  intro j hj
  induction j with
  | zero => simp [stepsWith]
  | succ j ih =>
    have hreached := h.inChain hhalted haccepted hbetween j (Nat.le_of_succ_le_succ hj)
    obtain ⟨hkept, -⟩ := waiting_next hreached.accepted
    obtain ⟨request, nmi, hperform, hnmi⟩ :=
      exists_performAll_signals (m.stepsWith between j).next (hbetween j)
    rw [stepsWith, hperform]
    show nmi = true ↔ _
    rw [hnmi, show (m.stepsWith between j).next.processor.interrupts.nmi = _ from hkept,
      ih (Nat.le_of_succ_le hj), or_assoc]
    refine or_congr_right ?_
    constructor
    · rintro (⟨i, hi, hmem⟩ | hmem)
      · exact ⟨i, Nat.lt_succ_of_lt hi, hmem⟩
      · exact ⟨j, Nat.lt_succ_self j, hmem⟩
    · rintro ⟨i, hi, hmem⟩
      rcases Nat.lt_succ_iff_lt_or_eq.1 hi with hlt | rfl
      · exact Or.inl ⟨i, hlt, hmem⟩
      · exact Or.inr hmem

/-! ## The instruction at the end -/

/-- The instruction that a chain leads to, where `code` gives the bytes from the last prefix on, which
selects `y`: the one that the last prefix is the beginning of, or that of the extended page. -/
def chainedInstruction (y : Index) (code : Nat → UInt8) : Instruction :=
  if code 1 = 0xED then decodeFrom .extended (fun i => code (i + 1)) 1
  else if code 1 = 0xCB then
    { page := .indexedBits y, opcode := code 3, displacement := (code 2).toInt8 }
  else decodeFrom (.indexed y) code 1

/-- The bytes from the last prefix of a chain on. -/
def lastCode (m : Machine) (n : Nat) : Nat → UInt8 :=
  MemoryBus.codeAt m.board (m.processor.registers.pc + UInt16.ofNat (n - 1))

/-- When the prefixes that stand alone have been passed, the chained instruction is found. -/
lemma PrefixChain.decodeAt_last (h : m.PrefixChain n) {y : Index}
    (hy : m.lastCode n 0 = y.prefixByte) :
    decodeAt m.board (m.processor.registers.pc + UInt16.ofNat (m.loneCount n)) =
      chainedInstruction y (m.lastCode n) := by
  set start := m.processor.registers.pc + UInt16.ofNat (n - 1)
  have hend : start + 1 = m.processor.registers.pc + UInt16.ofNat n := h.last_add_one
  have hsecond : m.lastCode n 1 = m.read (m.processor.registers.pc + UInt16.ofNat n) := by
    rw [← hend]
    rfl
  have hlast := h.last
  rw [← hsecond] at hlast
  rw [chainedInstruction, loneCount, ← hsecond]
  by_cases hextended : m.lastCode n 1 = 0xED
  · have hcode : MemoryBus.codeAt m.board (start + 1) = fun i => m.lastCode n (i + 1) :=
      funext fun i => codeAt_add_one m.board start i
    rw [if_pos hextended, if_pos hextended, ← hend, decodeAt, hcode, decode_extended hextended]
  · rw [if_neg hextended, if_neg hextended]
    show decode (m.lastCode n) = _
    rw [decode_index y hy, decodeIndexed, if_neg]
    rintro (hix | hiy | hed)
    · exact hlast (Or.inl hix)
    · exact hlast (Or.inr hiy)
    · exact hextended hed

/-- **Chains of prefixes.**  In a chain of index prefixes, every prefix that stands alone takes four
T-states and one fetch, and does nothing else; all but the last one stand alone, and the last one as well
before the prefix of the extended page.  The step after them executes the instruction at the end of the
chain.  Whatever is requested between the steps, nothing is accepted until that instruction has been
executed, and what waits goes on waiting; then a non-maskable interrupt is accepted at once if it has been
requested since the beginning of the chain. -/
theorem prefix_chain (h : m.PrefixChain n) (hhalted : m.processor.registers.halted = false)
    (haccepted : m.accepted? = none) {between : Nat → List Command}
    (hbetween : ∀ j, ∀ action ∈ between j, action.isSignal = true) :
    let k := m.processor.registers
    let count := m.loneCount n
    let reached := m.stepsWith between
    (∀ j ≤ count,
      (reached j).accepted? = none ∧
      (reached j).processor.registers = k.passed (UInt8.ofNat j) (UInt16.ofNat j) ∧
      (reached j).board = m.board ∧
      (reached j).next.interrupts.nmi = (reached j).interrupts.nmi ∧
      (reached j).next.interrupts.request = (reached j).interrupts.request) ∧
    (∀ j < count,
      (reached j).step.duration = 4 ∧
      (reached j).next.processor.registers = (reached j).processor.registers.passed 1 1 ∧
      (reached j).next.board = (reached j).board) ∧
    (∃ y : Index, m.lastCode n 0 = y.prefixByte ∧
      (reached count).step = (reached count).processor.looked.execute
        (chainedInstruction y (m.lastCode n)) m.board) ∧
    ((reached (count + 1)).accepted? = some .nonMaskable ↔
      m.interrupts.nmi = true ∨ ∃ j ≤ count, Command.nmi ∈ between j) := by
  intro k count reached
  have hchain := h.inChain hhalted haccepted hbetween
  have hlast := hchain count le_rfl
  refine ⟨fun j hj => ?_, fun j hj => ?_, ?_, ?_⟩
  · have hreached := hchain j hj
    obtain ⟨hnmi, hrequest⟩ := waiting_next hreached.accepted
    exact ⟨hreached.accepted, hreached.registers, hreached.board, hnmi, hrequest⟩
  · have hreached := hchain j (Nat.le_of_lt hj)
    exact next_of_lone ((hreached.executes hhalted IsLonePrefix).2 (h.isLonePrefix hj))
  · obtain ⟨y, hy⟩ := (h.member (n - 1) (Nat.sub_one_lt_of_lt h.pos)).exists_index
    have hcode : m.lastCode n 0 = y.prefixByte := (codeAt_zero m.board _).trans hy
    refine ⟨y, hcode, ?_⟩
    have hready : (reached count).processor.Ready := by
      refine ⟨(accepted?_eq _).symm.trans hlast.accepted, ?_⟩
      rw [hlast.registers]
      exact hhalted
    rw [step, Processor.step_of_ready hready, hlast.board, hlast.registers]
    exact congrArg (fun i => (reached count).processor.looked.execute i m.board) (h.decodeAt_last hcode)
  · obtain ⟨request, nmi, hperform, -⟩ :=
      exists_performAll_signals (reached count).next (hbetween count)
    have hnmi := h.nmi_iff hhalted haccepted hbetween (count + 1) le_rfl
    have hfree : ¬ (reached count).next.interrupts.held = true := by
      rw [held_next]
      exact fun hlone => h.not_isLonePrefix ((hlast.executes hhalted IsLonePrefix).1 hlone)
    have hnext : reached (count + 1) = (reached count).next.withSignals request nmi := hperform
    simp only [Nat.lt_succ_iff] at hnmi
    rw [← hnmi, accepted?_eq]
    show (reached (count + 1)).processor.accepts? = _ ↔ (reached (count + 1)).interrupts.nmi = true
    rw [hnext]
    show (Interrupts.poll { (reached count).next.interrupts with request, nmi } _).1 = _ ↔ nmi = true
    rw [Interrupts.poll_eq_nonMaskable]
    exact and_iff_left hfree

/-- A chain of two prefixes around the end of the address space, before an increment, where both kinds of
interrupt are requested behind the first prefix. -/
theorem prefix_chain_wrap :
    let registers : Registers := { Registers.powerOn with pc := 0xFFFF, iff1 := true }
    let memory := ((Memory.zero.write 0xFFFF 0xDD).write 0 0xFD).write 1 0x23
    let m : Machine := { processor := { registers }, board := { memory } }
    let between : Nat → List Command := fun j => if j = 0 then [.interrupt 0x10, .nmi] else []
    m.PrefixChain 2 ∧ m.processor.registers.halted = false ∧ m.accepted? = none ∧
      (∀ j, ∀ action ∈ between j, action.isSignal = true) ∧ m.loneCount 2 = 1 ∧
      (m.stepsWith between 1).accepted? = none ∧
      (m.stepsWith between 1).processor.registers = registers.passed 1 1 ∧
      (∃ y : Index, m.lastCode 2 0 = y.prefixByte ∧
        (m.stepsWith between 1).step = (m.stepsWith between 1).processor.looked.execute
          (chainedInstruction y (m.lastCode 2)) m.board) ∧
      (m.stepsWith between 2).accepted? = some .nonMaskable := by
  intro registers memory m between
  have hzero : m.read (registers.pc + UInt16.ofNat 0) = 0xDD := by
    simp [m, memory, registers, read, Memory.read_write]
  have hone : m.read (registers.pc + UInt16.ofNat 1) = 0xFD := by
    simp [m, memory, registers, read, Memory.read_write]
  have htwo : m.read (registers.pc + UInt16.ofNat 2) = 0x23 := by
    simp [m, memory, registers, read, Memory.read_write]
  have hchain : m.PrefixChain 2 := by
    refine ⟨by decide, fun i hi => ?_, ?_⟩
    · obtain rfl | rfl : i = 0 ∨ i = 1 := by omega
      · exact Or.inl hzero
      · exact Or.inr hone
    · show ¬ IsIndexPrefix (m.read (registers.pc + UInt16.ofNat 2))
      rw [htwo, IsIndexPrefix]
      decide
  have hcount : m.loneCount 2 = 1 := by
    show (if m.read (registers.pc + UInt16.ofNat 2) = 0xED then 2 else 2 - 1) = 1
    rw [htwo]
    rfl
  have haccepted : m.accepted? = none := m.accepted?_eq
  have hbetween : ∀ j, ∀ action ∈ between j, action.isSignal = true := by
    intro j action haction
    by_cases hj : j = 0
    · simp only [between, hj, if_true, List.mem_cons, List.not_mem_nil, or_false] at haction
      rcases haction with rfl | rfl <;> rfl
    · simp [between, hj] at haction
  obtain ⟨hheld, -, hlast, hnmi⟩ := prefix_chain hchain rfl haccepted hbetween
  rw [hcount] at hheld hlast hnmi
  obtain ⟨hnone, hregisters, -⟩ := hheld 1 le_rfl
  have hrequested : Command.nmi ∈ between 0 := by simp [between]
  exact ⟨hchain, rfl, haccepted, hbetween, hcount, hnone, hregisters, hlast,
    hnmi.2 (Or.inr ⟨0, Nat.zero_le 1, hrequested⟩)⟩

end Machine

end Z80

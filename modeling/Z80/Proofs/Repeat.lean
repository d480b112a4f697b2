import Z80.Proofs.Acceptance
import Z80.Proofs.Duration
import Z80.Proofs.Extended
import Z80.Proofs.Lockstep
import Z80.Proofs.Stack

/-!
# Repeating block operations

A repeating block operation handles one byte in each step and goes back to its own first byte until it
is done.  All that the four of them have in common follows from the tables: where an iteration leads,
how long it takes and, for transfers and searches, what it leaves in the address latch
(`Machine.AtExtended.pc_next_of_repeats` and its companions).

What a particular operation does to the registers and the board is said by a state of its loop, that is
by what holds before iteration `j`.  `Machine.Loop` collects what has to be shown of such a state: it
holds at first, an iteration leads from it to the next one, the code is still there, and the operation
repeats until iteration `n`.  From that, `Machine.Loop.state` gives the state before every iteration and
after the last, and `Machine.Loop.finishes` that this takes just `n` steps and how long they are.

Counters start at zero for the longest range, so the number of iterations is not what they stand for but
`wordCount` and `byteCount`.
-/

namespace Z80

/-! ## Places and counters -/

namespace Direction

/-- The word `n` places further in a direction. -/
def advance (d : Direction) (w : UInt16) (n : Nat) : UInt16 :=
  match d with
  | .up => w + UInt16.ofNat n
  | .down => w - UInt16.ofNat n

variable (d : Direction) (w : UInt16)

@[simp] lemma advance_zero : d.advance w 0 = w := by
  cases d <;> simp [advance]

/-- Going one place further comes first or last. -/
lemma advance_step (n : Nat) : d.advance (d.step w) n = d.advance w (n + 1) := by
  cases d with
  | up =>
    show w + 1 + UInt16.ofNat n = w + UInt16.ofNat (n + 1)
    rw [UInt16.ofNat_add]
    grind
  | down =>
    show w - 1 - UInt16.ofNat n = w - UInt16.ofNat (n + 1)
    rw [UInt16.ofNat_add]
    grind

lemma step_advance (n : Nat) : d.step (d.advance w n) = d.advance w (n + 1) := by
  rw [← advance_step]
  cases d with
  | up =>
    show w + UInt16.ofNat n + 1 = w + 1 + UInt16.ofNat n
    grind
  | down =>
    show w - UInt16.ofNat n - 1 = w - 1 - UInt16.ofNat n
    grind

end Direction

/-- How often a word has to be counted down until it is zero, at least once. -/
def wordCount (w : UInt16) : Nat :=
  if w = 0 then 65536 else w.toNat

/-- How often a byte has to be counted down until it is zero, at least once. -/
def byteCount (v : UInt8) : Nat :=
  if v = 0 then 256 else v.toNat

/-- The count of a word stands for that word. -/
lemma wordCount_spec (w : UInt16) :
    0 < wordCount w ∧ wordCount w ≤ 65536 ∧ UInt16.ofNat (wordCount w) = w := by
  by_cases hzero : w = 0
  · rw [hzero]
    exact ⟨by decide, by decide, rfl⟩
  · have hne : w.toNat ≠ 0 := fun h => hzero (UInt16.toNat_inj.1 h)
    rw [wordCount, if_neg hzero]
    exact ⟨Nat.pos_of_ne_zero hne, Nat.le_of_lt w.toNat_lt, UInt16.ofNat_toNat⟩

/-- The count of a byte stands for that byte. -/
lemma byteCount_spec (v : UInt8) :
    0 < byteCount v ∧ byteCount v ≤ 256 ∧ UInt8.ofNat (byteCount v) = v := by
  by_cases hzero : v = 0
  · rw [hzero]
    exact ⟨by decide, by decide, rfl⟩
  · have hne : v.toNat ≠ 0 := fun h => hzero (UInt8.toNat_inj.1 h)
    rw [byteCount, if_neg hzero]
    exact ⟨Nat.pos_of_ne_zero hne, Nat.le_of_lt v.toNat_lt, UInt8.ofNat_toNat⟩

/-- A word that is counted down stands for what is left of its count. -/
lemma word_sub_ofNat {w : UInt16} {j : Nat} (hj : j ≤ wordCount w) :
    w - UInt16.ofNat j = UInt16.ofNat (wordCount w - j) := by
  rw [UInt16.ofNat_sub hj, (wordCount_spec w).2.2]

/-- A byte that is counted down stands for what is left of its count. -/
lemma byte_sub_ofNat {v : UInt8} {j : Nat} (hj : j ≤ byteCount v) :
    v - UInt8.ofNat j = UInt8.ofNat (byteCount v - j) := by
  rw [UInt8.ofNat_sub hj, (byteCount_spec v).2.2]

/-- A word is one just before it has been counted down. -/
lemma word_sub_ofNat_ne_one {w : UInt16} {j : Nat} (hj : j < wordCount w) :
    (w - UInt16.ofNat j != 1) = decide (j + 1 < wordCount w) := by
  have hle := (wordCount_spec w).2.1
  rw [word_sub_ofNat (Nat.le_of_lt hj), Bool.eq_iff_iff, bne_iff_ne, decide_eq_true_iff, Ne,
    ← UInt16.toNat_inj, UInt16.toNat_ofNat', UInt16.toNat_one]
  omega

/-- A byte is one just before it has been counted down. -/
lemma byte_sub_ofNat_ne_one {v : UInt8} {j : Nat} (hj : j < byteCount v) :
    (v - UInt8.ofNat j != 1) = decide (j + 1 < byteCount v) := by
  have hle := (byteCount_spec v).2.1
  rw [byte_sub_ofNat (Nat.le_of_lt hj), Bool.eq_iff_iff, bne_iff_ne, decide_eq_true_iff, Ne,
    ← UInt8.toNat_inj, UInt8.toNat_ofNat', UInt8.toNat_one]
  omega

/-! ## Code and ranges in memory -/

/-- A memory holds the instruction with the given opcode of the extended page at an address. -/
structure Memory.HoldsExtended (memory : Memory) (pc : UInt16) (opcode : UInt8) : Prop where
  /-- The prefix comes first. -/
  first : memory.read pc = 0xED
  /-- The opcode comes second. -/
  second : memory.read (pc + 1) = opcode

/-- The memory after the first `n` of some bytes have been stored, one after the other, from `start`
on. -/
def Memory.filled (memory : Memory) (d : Direction) (start : UInt16) (bytes : Nat → UInt8) :
    Nat → Memory
  | 0 => memory
  | n + 1 => (memory.filled d start bytes n).write (d.advance start n) (bytes n)

/-- Bytes that are stored elsewhere leave a byte as it is. -/
lemma Memory.read_filled_of_ne (memory : Memory) {d : Direction} {start a : UInt16}
    (bytes : Nat → UInt8) {n : Nat} (h : ∀ i < n, a ≠ d.advance start i) :
    (memory.filled d start bytes n).read a = memory.read a := by
  induction n with
  | zero => rfl
  | succ n ih =>
    have hrest : ∀ i < n, a ≠ d.advance start i := fun i hi => h i (Nat.lt_succ_of_lt hi)
    rw [filled, read_write_of_ne _ _ (h n n.lt_succ_self), ih hrest]

/-- Bytes that are stored elsewhere leave an instruction where it is. -/
lemma Memory.HoldsExtended.filled {memory : Memory} {pc : UInt16} {opcode : UInt8}
    (hcode : memory.HoldsExtended pc opcode) {d : Direction} {start : UInt16}
    (bytes : Nat → UInt8) {n : Nat}
    (hapart : ∀ i < n, pc ≠ d.advance start i ∧ pc + 1 ≠ d.advance start i) :
    (memory.filled d start bytes n).HoldsExtended pc opcode where
  first := (memory.read_filled_of_ne bytes fun i hi => (hapart i hi).1).trans hcode.first
  second := (memory.read_filled_of_ne bytes fun i hi => (hapart i hi).2).trans hcode.second

/-! ## One iteration -/

/-- A block operation that repeats takes as long as all of them and has no operand in the code. -/
lemma Operation.plain_of_repeats {op : Operation} (h : op.course.repeats = true) :
    op.duration = 12 ∧ op.course.extra = 5 ∧ op.immediateSize = 0 ∧ op.isIndexed = false := by
  cases op with
  | blockTransfer _ repeating | blockSearch _ repeating | blockInput _ repeating
  | blockOutput _ repeating =>
    cases repeating with
    | false => cases h
    | true => exact ⟨rfl, rfl, rfl, rfl⟩
  | _ => cases h

/-- A course that leads back counts as taken if it does, and goes to the first byte. -/
lemma Course.back_of_repeats {course : Course} (h : course.repeats = true) (k : Registers)
    (memory : Memory) (start : Nat) (next : UInt16) :
    course.counts k memory = course.leaves k memory ∧
      course.target k memory start next = k.pc := by
  cases course with
  | transferring | searching | counting => exact ⟨rfl, rfl⟩
  | _ => cases h

/-- Going back keeps the bank. -/
@[simp] lemma Registers.toBank_rewindIf (k : Registers) (again : Bool) :
    (k.rewindIf again).toBank = k.toBank := by
  cases again <;> rfl

namespace Machine

variable {m : Machine} {op : Operation}

/-- Whether the operation goes back to its first byte from here. -/
def goesBack (m : Machine) (op : Operation) : Bool :=
  op.course.leaves m.processor.registers m.board.memory

namespace AtExtended

variable (h : m.AtExtended op)

include h

/-- The operation makes the registers of the main bank and the board what its effect says. -/
lemma bank_next : m.next.processor.registers.toBank = (m.extendedEffect op).registers.toBank ∧
    m.next.board = (m.extendedEffect op).store.run m.board := by
  rw [h.next_eq]
  exact ⟨rfl, rfl⟩

variable (hrepeats : op.course.repeats = true)

include hrepeats

/-- An iteration goes back to the first byte or on behind the second. -/
lemma pc_next_of_repeats : m.next.processor.registers.pc =
    if m.goesBack op = true then m.processor.registers.pc else m.processor.registers.pc + 2 := by
  set k := m.processor.registers
  obtain ⟨-, -, hsize, -⟩ := Operation.plain_of_repeats hrepeats
  have htarget := (Course.back_of_repeats hrepeats k m.board.memory 2 (k.pc + 2)).2
  have himmediate : op.isIndexed = false →
      0 = immediateValue (MemoryBus.codeAt m.board k.pc) 2 op.immediateSize := by
    intro _
    rw [hsize]
    rfl
  have hpc := op.pc_plan k (k.advanceRefresh 2).r 0 m.board 2 himmediate fun _ => rfl
  rw [h.next_eq]
  refine hpc.trans ?_
  rw [Course.follow, htarget]
  rfl

/-- An iteration takes longer if it goes back. -/
lemma duration_of_repeats : m.step.duration = if m.goesBack op = true then 21 else 16 := by
  set k := m.processor.registers
  obtain ⟨hduration, hextra, -, -⟩ := Operation.plain_of_repeats hrepeats
  have htaken : (m.extendedEffect op).taken = m.goesBack op :=
    (op.taken_plan k (k.advanceRefresh 2).r 0 0 (k.pc + 2) m.board).trans
      (Course.back_of_repeats hrepeats k m.board.memory 2 (k.pc + 2)).1
  rw [h.duration_eq, htaken, hduration, Operation.extraDuration_eq, hextra]
  split <;> rfl

/-- An iteration does not halt the processor. -/
lemma halted_next_of_repeats : m.next.processor.registers.halted = false := by
  have himplicit := op.implicit_plan 0 0 m.processor.registers.fetchedTwo m.board
  have hhalted := congrArg Implicit.halted himplicit
  have hkept : (op.implicit m.processor.registers.fetchedTwo
      (m.extendedEffect op).registers.pc).halted = m.processor.registers.halted := by
    cases op with
    | halt => cases hrepeats
    | _ => rfl
  rw [h.next_eq]
  exact hhalted.trans (hkept.trans h.ready.halted)

/-- An iteration leaves in the address latch what the law of its operation says. -/
lemma wz_next_of_repeats : m.next.processor.registers.wz =
    op.latchLaw.value m.processor.config.revision m.processor.registers m.board.memory 2 := by
  set k := m.processor.registers
  obtain ⟨-, -, hsize, hplain⟩ := Operation.plain_of_repeats hrepeats
  have hrule : op.latchRule = op.plainLatchRule := by
    rw [Operation.latchRule, hplain]
    rfl
  have hwz : (m.extendedEffect op).registers.wz = k.wz := op.wz_plan 0 0 k.fetchedTwo m.board
  have himmediate : 0 = immediateValue (MemoryBus.codeAt m.board k.pc) 2 op.immediateSize := by
    rw [hsize]
    rfl
  have hnext : k.pc + 2 = k.pc + UInt16.ofNat (2 + op.immediateSize) := by
    rw [hsize]
    rfl
  rw [h.next_eq]
  show op.latchRule.apply _ ((m.extendedEffect op).notes k) (m.extendedEffect op).registers.wz = _
  rw [hrule, hwz]
  exact op.apply_plainLatchRule hplain m.processor.config.revision k (k.advanceRefresh 2).r 0 m.board
    2 himmediate hnext

end AtExtended

/-! ## All iterations -/

/-- The processor is not halted and accepts no interrupt in the next `n` steps. -/
structure Undisturbed (m : Machine) (n : Nat) : Prop where
  /-- The processor does not wait. -/
  halted : m.processor.registers.halted = false
  /-- No interrupt is accepted. -/
  accepts : ∀ j < n, (m.steps j).machine.accepted? = none

/-- Where no interrupt waits, none is accepted. -/
lemma undisturbed_of_idle (hhalted : m.processor.registers.halted = false)
    (hidle : m.interrupts.nmi = false ∧ m.interrupts.request = none) (n : Nat) :
    m.Undisturbed n := by
  have hnone : ∀ m : Machine, m.interrupts.nmi = false ∧ m.interrupts.request = none →
      m.accepted? = none := by
    intro m hidle
    rw [accepted?_eq]
    show (m.interrupts.poll m.processor.registers.iff1).1 = none
    simp [Interrupts.poll, hidle]
  have hnext : ∀ m : Machine, m.interrupts.nmi = false ∧ m.interrupts.request = none →
      m.next.interrupts.nmi = false ∧ m.next.interrupts.request = none := by
    rintro m ⟨hnmi, hrequest⟩
    constructor
    · rw [← Bool.not_eq_true, m.nmi_next, hnmi]
      simp
    · refine Option.eq_none_iff_forall_ne_some.2 fun data => ?_
      rw [Ne, m.request_next, hrequest]
      simp
  exact ⟨hhalted, fun j _ => hnone _ (steps_induction hnext j hidle)⟩

/-- The instruction at the program counter, two bytes long, is carried out in `n` steps and not in
fewer.  Each takes 21 T-states but the last, which takes 16. -/
structure Finishes (m : Machine) (n : Nat) : Prop where
  /-- Before the last step the program has not gone on. -/
  stays : ∀ j < n, (m.steps j).machine.processor.registers.pc = m.processor.registers.pc
  /-- After the last step it goes on behind the instruction. -/
  goesOn : (m.steps n).machine.processor.registers.pc = m.processor.registers.pc + 2
  /-- The time of all steps. -/
  duration : (m.steps n).duration = 21 * (n - 1) + 16

/-- A state of the loop of a repeating operation: `State j` holds of the machine before iteration `j`,
and `State n` of the machine after the last iteration. -/
structure Loop (m : Machine) (op : Operation) (n : Nat) (State : Nat → Machine → Prop) : Prop where
  /-- The operation is one that repeats. -/
  repeats : op.course.repeats = true
  /-- The state holds before the first iteration. -/
  start : State 0 m
  /-- The code is in its place before each iteration. -/
  code : ∀ j < n, ∀ m', State j m' → ∃ opcode, extendedOperation opcode = op ∧
    m'.board.memory.HoldsExtended m.processor.registers.pc opcode
  /-- The operation goes back from each iteration but the last. -/
  again : ∀ j < n, ∀ m', State j m' → m'.goesBack op = decide (j + 1 < n)
  /-- An iteration leads to the next state. -/
  next : ∀ j < n, ∀ m', m'.AtExtended op → State j m' → State (j + 1) m'.next

namespace Loop

variable {n : Nat} {State : Nat → Machine → Prop} (h : m.Loop op n State) (hm : m.Undisturbed n)

include h hm

/-- Before every iteration the state holds and the operation is the next instruction. -/
lemma atExtended {j : Nat} (hj : j < n) :
    State j (m.steps j).machine ∧ (m.steps j).machine.AtExtended op ∧
      (m.steps j).machine.processor.registers.pc = m.processor.registers.pc := by
  have executes : ∀ {j}, j < n → State j (m.steps j).machine →
      (m.steps j).machine.processor.registers.pc = m.processor.registers.pc →
      (m.steps j).machine.processor.registers.halted = false →
      (m.steps j).machine.AtExtended op := by
    intro j hj hstate hpc hhalted
    obtain ⟨opcode, hopcode, hcode⟩ := h.code j hj _ hstate
    exact
      { ready := ⟨(accepted?_eq _).symm.trans (hm.accepts j hj), hhalted⟩
        first := by rw [hpc]; exact hcode.first
        second := by rw [hpc, ← hopcode]; exact congrArg extendedOperation hcode.second
        size := (Operation.plain_of_repeats h.repeats).2.2.1 }
  induction j with
  | zero => exact ⟨h.start, executes hj h.start rfl hm.halted, rfl⟩
  | succ j ih =>
    obtain ⟨hstate, hexecutes, hpc⟩ := ih (Nat.lt_of_succ_lt hj)
    have hagain : (m.steps j).machine.goesBack op = true :=
      (h.again j (Nat.lt_of_succ_lt hj) _ hstate).trans (decide_eq_true hj)
    have hpc' : (m.steps (j + 1)).machine.processor.registers.pc = m.processor.registers.pc := by
      rw [machine_steps_succ, hexecutes.pc_next_of_repeats h.repeats, if_pos hagain, hpc]
    have hstate' : State (j + 1) (m.steps (j + 1)).machine := by
      rw [machine_steps_succ]
      exact h.next j (Nat.lt_of_succ_lt hj) _ hexecutes hstate
    have hhalted' : (m.steps (j + 1)).machine.processor.registers.halted = false := by
      rw [machine_steps_succ]
      exact hexecutes.halted_next_of_repeats h.repeats
    exact ⟨hstate', executes hj hstate' hpc' hhalted', hpc'⟩

/-- The state holds before every iteration and after the last. -/
lemma state {j : Nat} (hj : j ≤ n) : State j (m.steps j).machine := by
  cases j with
  | zero => exact h.start
  | succ j =>
    obtain ⟨hstate, hexecutes, -⟩ := h.atExtended hm hj
    rw [machine_steps_succ]
    exact h.next j hj _ hexecutes hstate

/-- An iteration that is not the last takes 21 T-states. -/
lemma duration_steps {j : Nat} (hj : j < n) : (m.steps j).duration = 21 * j := by
  induction j with
  | zero => rfl
  | succ j ih =>
    obtain ⟨hstate, hexecutes, -⟩ := h.atExtended hm (Nat.lt_of_succ_lt hj)
    have hagain : (m.steps j).machine.goesBack op = true :=
      (h.again j (Nat.lt_of_succ_lt hj) _ hstate).trans (decide_eq_true hj)
    rw [duration_steps_succ, ih (Nat.lt_of_succ_lt hj), hexecutes.duration_of_repeats h.repeats,
      if_pos hagain]
    rfl

/-- The last iteration does not go back. -/
lemma last (hn : 0 < n) :
    let before := (m.steps (n - 1)).machine
    State (n - 1) before ∧ before.AtExtended op ∧ before.goesBack op = false ∧
      (m.steps n).machine = before.next := by
  intro before
  have hlast : n - 1 < n := Nat.sub_one_lt_of_lt hn
  obtain ⟨hstate, hexecutes, -⟩ := h.atExtended hm hlast
  refine ⟨hstate, hexecutes, ?_, ?_⟩
  · rw [h.again _ hlast _ hstate, Nat.sub_add_cancel hn]
    exact decide_eq_false (Nat.lt_irrefl n)
  · rw [← machine_steps_succ, Nat.sub_add_cancel hn]

/-- The operation is over after the last iteration. -/
lemma finishes (hn : 0 < n) : m.Finishes n := by
  have hlast : n - 1 < n := Nat.sub_one_lt_of_lt hn
  obtain ⟨-, hexecutes, hover, hfinal⟩ := h.last hm hn
  refine ⟨fun j hj => (h.atExtended hm hj).2.2, ?_, ?_⟩
  · rw [hfinal, hexecutes.pc_next_of_repeats h.repeats, hover, (h.atExtended hm hlast).2.2]
    rfl
  · have hduration := m.duration_steps_succ (n - 1)
    rw [Nat.sub_add_cancel hn, h.duration_steps hm hlast, hexecutes.duration_of_repeats h.repeats,
      hover] at hduration
    exact hduration

/-- While a transfer or a search goes on, the address of its second byte is in the latch. -/
lemma wz_steps {d : Direction} (hop : op = .blockTransfer d true ∨ op = .blockSearch d true)
    {j : Nat} (hj : j < n) : (m.steps j).machine.processor.registers.wz =
      if j = 0 then m.processor.registers.wz else m.processor.registers.pc + 1 := by
  cases j with
  | zero => rfl
  | succ j =>
    obtain ⟨hstate, hexecutes, hpc⟩ := h.atExtended hm (Nat.lt_of_succ_lt hj)
    have hagain : (m.steps j).machine.goesBack op = true :=
      (h.again j (Nat.lt_of_succ_lt hj) _ hstate).trans (decide_eq_true hj)
    rw [machine_steps_succ, hexecutes.wz_next_of_repeats h.repeats, if_neg j.succ_ne_zero, ← hpc]
    obtain rfl | rfl := hop
    · exact if_pos (bne_iff_ne.1 hagain)
    · obtain ⟨hleft, hdiffers⟩ := Bool.and_eq_true_iff.1 hagain
      exact if_pos ⟨bne_iff_ne.1 hleft, bne_iff_ne.1 hdiffers⟩

end Loop

end Machine

end Z80

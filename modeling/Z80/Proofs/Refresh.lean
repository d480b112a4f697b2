import Z80.Proofs.Acceptance
import Z80.Proofs.Extended
import Z80.Proofs.Implicit
import Z80.Proofs.Lockstep
import Z80.Proofs.Service

/-!
# The refresh counter

Every opcode fetch counts the refresh counter up in its low seven bits; the top bit is the program's.
A step makes one or two opcode fetches, and `Processor.fetches` gives their number from the bytes
found before the step.

`Counted` relates two values of the counter between which a number of fetches has been made.  One step
counts its fetches (`Machine.counted_next`) unless it copies the accumulator to the counter, numbers of
fetches add up (`Counted.trans`), and so any sequence of commands counts the fetches of all its steps
(`Machine.refresh_counts`).
-/

namespace Z80

/-! ## Fetches of a step -/

/-- The number of opcode fetches of the next step: accepting an interrupt takes one, and so does
waiting. -/
def Processor.fetches {β : Type} [MemoryBus β] (p : Processor) (bus : β) : Nat :=
  let pc := p.registers.pc
  match p.accepts? with
  | some _ => 1
  | none =>
    if p.registers.halted = true then 1
    else encodedFetches (MemoryBus.peek bus pc) (MemoryBus.peek bus (pc + 1))

namespace Processor

variable {β : Type} [MemoryBus β] {p : Processor}

/-- A step that executes no instruction takes one fetch. -/
lemma fetches_of_not_ready (h : ¬ p.Ready) (bus : β) : p.fetches bus = 1 := by
  rw [fetches]
  split
  · rfl
  · next haccepts => exact if_pos (Bool.eq_true_of_not_eq_false fun hhalted => h ⟨haccepts, hhalted⟩)

/-- An instruction has as many opcode fetches as its first two bytes say. -/
lemma fetches_of_ready (h : p.Ready) (bus : β) :
    p.fetches bus = (decodeAt bus p.registers.pc).page.fetches := by
  have hcode := encoding_decode (MemoryBus.codeAt bus p.registers.pc)
  rw [fetches, h.accepts, h.halted, ← MemoryBus.codeAt_first]
  exact hcode.fetches_eq.symm

end Processor

/-! ## Counting -/

/-- The refresh counter had the value `r`, and has the value `r'` after `n` opcode fetches. -/
structure Counted (r : UInt8) (n : Nat) (r' : UInt8) : Prop where
  /-- The top bit stays. -/
  high : bit r' 7 = bit r 7
  /-- The low seven bits count. -/
  low : r'.toNat % 128 = (r.toNat + n) % 128

/-- No fetch changes nothing. -/
lemma Counted.refl (r : UInt8) : Counted r 0 r := ⟨rfl, rfl⟩

/-- Fetches add up. -/
lemma Counted.trans {r r' r'' : UInt8} {n n' : Nat} (h : Counted r n r') (h' : Counted r' n' r'') :
    Counted r (n + n') r'' := by
  refine ⟨h'.high.trans h.high, ?_⟩
  have hlow := h.low
  have hlow' := h'.low
  omega

/-- Counting up counts. -/
lemma Registers.counted_advanceRefresh (k : Registers) (n : UInt8) :
    Counted k.r n.toNat (k.advanceRefresh n).r := by
  have hvalue : (k.advanceRefresh n).r.toNat =
      k.r.toNat / 128 * 128 + (k.r.toNat + n.toNat) % 128 := by
    have hr := k.r.toNat_lt
    simp only [advanceRefresh, UInt8.toNat_add, UInt8.toNat_mul, UInt8.toNat_div, UInt8.toNat_mod,
      UInt8.reduceToNat]
    omega
  constructor
  · have htop : (k.advanceRefresh n).r.toNat / 2 ^ 7 = k.r.toNat / 2 ^ 7 := by
      rw [hvalue]
      omega
    rw [bit, bit, Nat.testBit_eq_decide_div_mod_eq, Nat.testBit_eq_decide_div_mod_eq, htop]
  · rw [hvalue]
    omega

/-! ## Steps -/

/-- The first two bytes are those of the copy of the accumulator to the refresh counter. -/
def IsSetRefresh (first second : UInt8) : Prop :=
  first = 0xED ∧ second = 0x4F

/-- The first two bytes are those of the copy of the refresh counter to the accumulator. -/
def IsGetRefresh (first second : UInt8) : Prop :=
  first = 0xED ∧ second = 0x5F

set_option maxRecDepth 4000 in
lemma extendedOperation_eq_setRefresh (op : UInt8) :
    extendedOperation op = .setRefresh ↔ op = 0x4F := by
  revert op
  exact forall_byte (by decide +kernel)

/-- Only one encoding copies the accumulator to the refresh counter. -/
lemma Encoding.isSetRefresh {code : Nat → UInt8} {i : Instruction} (h : Encoding code i)
    (hop : i.operation = .setRefresh) : IsSetRefresh (code 0) (code 1) := by
  have hsystem : i.operation.isSystem = true := by rw [hop]; rfl
  obtain ⟨hfirst, hextended⟩ := h.extended_of_isSystem hsystem
  exact ⟨hfirst, (extendedOperation_eq_setRefresh _).1 (hextended.symm.trans hop)⟩

/-- Every other operation keeps the refresh counter. -/
lemma Operation.r_plan {op : Operation} (hop : op ≠ .setRefresh) (d : Int8) (immediate : UInt16)
    (k : Registers) (board : Board) : ((op.plan d immediate k).outcome board).registers.r = k.r := by
  have himplicit := congrArg Implicit.r (op.implicit_plan d immediate k board)
  refine himplicit.trans ?_
  cases op with
  | setRefresh => exact absurd rfl hop
  | _ => rfl

namespace Machine

/-- The number of opcode fetches of the next step. -/
def fetches (m : Machine) : Nat :=
  m.processor.fetches m.board

variable {m : Machine}

/-- A step counts its fetches, unless it copies the accumulator to the counter. -/
lemma counted_next (h : ¬ m.Executes IsSetRefresh) :
    Counted m.processor.registers.r m.fetches m.next.processor.registers.r := by
  set k := m.processor.registers
  show Counted k.r _ (m.processor.step m.board).processor.registers.r
  obtain ⟨i, haccepts, hstep⟩ | ⟨haccepts, hhalted, hstep⟩ | ⟨hready, hstep⟩ :=
    m.processor.step_cases m.board
  · have hcount : m.fetches = 1 :=
      Processor.fetches_of_not_ready (Processor.not_ready_of_accepts haccepts) m.board
    rw [hcount, hstep, Processor.acceptInterrupt, Plan.run_eq]
    show Counted k.r 1 ((k.accept i).outcome m.board).registers.r
    rw [k.outcome_accept]
    exact k.counted_advanceRefresh 1
  · have hcount : m.fetches = 1 :=
      Processor.fetches_of_not_ready (Processor.not_ready_of_halted hhalted) m.board
    rw [hcount, hstep]
    exact k.counted_advanceRefresh 1
  · set i := decodeAt m.board k.pc
    have hcount : m.fetches = i.page.fetches := Processor.fetches_of_ready hready m.board
    have hop : i.operation ≠ .setRefresh := fun hop =>
      h ((executes_iff m _).2 ⟨hready, (encoding_decode _).isSetRefresh hop⟩)
    have hsmall : (UInt8.ofNat i.page.fetches).toNat = i.page.fetches := by
      cases i.page <;> rfl
    rw [Processor.registers_step_of_ready hready, hcount]
    show Counted k.r _ ((i.plan k).outcome m.board).registers.r
    rw [Instruction.plan, Operation.r_plan hop, ← hsmall]
    exact k.counted_advanceRefresh _

/-- An opcode of the extended page without an immediate value is about to be executed. -/
lemma atExtended_of_executes {op : UInt8}
    (h : m.Executes fun first second => first = 0xED ∧ second = op)
    (hsize : (extendedOperation op).immediateSize = 0) : m.AtExtended (extendedOperation op) := by
  obtain ⟨hready, hfirst, hsecond⟩ := (executes_iff m _).1 h
  rw [codeAt_zero] at hfirst
  exact ⟨hready, hfirst, congrArg extendedOperation hsecond, hsize⟩

/-- A copy to the accumulator sees the counter after its own two fetches, and leaves it there. -/
lemma registers_next_of_getRefresh (h : m.Executes IsGetRefresh) :
    m.next.processor.registers.a = (m.processor.registers.advanceRefresh 2).r ∧
      m.next.processor.registers.r = (m.processor.registers.advanceRefresh 2).r := by
  have hextended : m.AtExtended .getRefresh := atExtended_of_executes h rfl
  rw [hextended.next_eq]
  exact ⟨rfl, rfl⟩

/-- A copy of the accumulator overwrites all bits of the counter, and the accumulator stays. -/
lemma registers_next_of_setRefresh (h : m.Executes IsSetRefresh) :
    m.next.processor.registers.r = m.processor.registers.a ∧
      m.next.processor.registers.a = m.processor.registers.a := by
  have hextended : m.AtExtended .setRefresh := atExtended_of_executes h rfl
  rw [hextended.next_eq]
  exact ⟨rfl, rfl⟩

end Machine

/-! ## Runs -/

/-- The command leaves the refresh counter to the program. -/
def Command.LeavesRefresh : Command → Prop
  | .set s _ => s ≠ .r ∧ s ≠ .ir
  | .restore _ | .reset => False
  | _ => True

namespace Machine

variable {m : Machine}

/-- Steps count their fetches. -/
lemma counted_steps (k : Nat) (h : ∀ j < k, ¬ (m.steps j).machine.Executes IsSetRefresh) :
    Counted m.processor.registers.r (∑ j ∈ Finset.range k, (m.steps j).machine.fetches)
      (m.steps k).machine.processor.registers.r := by
  induction k with
  | zero => exact Counted.refl _
  | succ k ih =>
    rw [Finset.sum_range_succ, machine_steps_succ]
    have hfirst := ih fun j hj => h j (Nat.lt_succ_of_lt hj)
    exact hfirst.trans (counted_next (h k k.lt_succ_self))

/-- A command that leaves the counter to the program counts the fetches of its steps. -/
lemma counted_perform {action : Command} (hleaves : action.LeavesRefresh)
    (h : ∀ j < m.stepCount action, ¬ (m.steps j).machine.Executes IsSetRefresh) :
    Counted m.processor.registers.r
      (∑ j ∈ Finset.range (m.stepCount action), (m.steps j).machine.fetches)
      (m.perform action).processor.registers.r := by
  cases action with
  | step => exact counted_steps 1 h
  | run budget =>
    rw [perform, run_eq_steps]
    exact counted_steps _ h
  | restore | reset => exact hleaves.elim
  | set s v =>
    cases s with
    | r => exact absurd rfl hleaves.1
    | ir => exact absurd rfl hleaves.2
    | _ => exact Counted.refl _
  | writeBlock start block =>
    rw [processor_perform_writeBlock]
    exact Counted.refl _
  | _ => exact Counted.refl _

/-- Commands that leave the counter to the program count the fetches of all their steps. -/
lemma counted_performAll {actions : List Command}
    (hleaves : ∀ action ∈ actions, action.LeavesRefresh)
    (hclean : m.Throughout (fun before => ¬ before.Executes IsSetRefresh) actions) :
    Counted m.processor.registers.r (m.total fetches actions)
      (m.performAll actions).processor.registers.r := by
  induction actions generalizing m with
  | nil => exact Counted.refl _
  | cons action actions ih =>
    rw [List.forall_mem_cons] at hleaves
    exact (counted_perform hleaves.1 hclean.1).trans (ih hleaves.2 hclean.2)

/-- **The law of the refresh counter.**  Under any commands that leave the counter to the program, as
long as no step copies the accumulator to it, its top bit stays and its low seven bits count the opcode
fetches of all steps.  A copy of the counter to the accumulator sees it after its own two fetches, and a
copy of the accumulator to the counter leaves the two equal. -/
theorem refresh_counts (m : Machine) :
    (∀ actions : List Command, (∀ action ∈ actions, action.LeavesRefresh) →
      m.Throughout (fun before => ¬ before.Executes IsSetRefresh) actions →
        Counted m.processor.registers.r (m.total fetches actions)
          (m.performAll actions).processor.registers.r) ∧
    (m.Executes IsGetRefresh →
      Counted m.processor.registers.r 2 m.next.processor.registers.a ∧
        m.next.processor.registers.a = m.next.processor.registers.r) ∧
    (m.Executes IsSetRefresh →
      m.next.processor.registers.r = m.processor.registers.a ∧
        m.next.processor.registers.a = m.processor.registers.a) := by
  refine ⟨fun actions => counted_performAll, fun h => ?_, registers_next_of_setRefresh⟩
  obtain ⟨ha, hr⟩ := registers_next_of_getRefresh h
  refine ⟨?_, ha.trans hr.symm⟩
  rw [ha]
  exact m.processor.registers.counted_advanceRefresh 2

/-- An instruction behind a prefix, a halt, a step of waiting and the acceptance of an interrupt count
five fetches, over which the low seven bits wrap; then the counter is copied both ways. -/
theorem refresh_counts_wrap :
    let registers : Registers := { Registers.powerOn with a := 0x5A, r := 0xFE }
    let machine : UInt8 → UInt8 → Machine := fun first second =>
      { processor := { registers }
        board := { memory := ((Memory.zero.write 0 first).write 1 second).write 2 0x76 } }
    let m := machine 0xDD 0x00
    let actions : List Command := [.step, .step, .step, .nmi, .step]
    (∀ action ∈ actions, action.LeavesRefresh) ∧
    m.Throughout (fun before => ¬ before.Executes IsSetRefresh) actions ∧
    m.total fetches actions = 5 ∧
    Counted 0xFE 5 (m.performAll actions).processor.registers.r ∧
    (m.performAll actions).processor.registers.r = 0x83 ∧
    (machine 0xED 0x5F).Executes IsGetRefresh ∧
    Counted 0xFE 2 (machine 0xED 0x5F).next.processor.registers.a ∧
    (machine 0xED 0x4F).Executes IsSetRefresh ∧
    (machine 0xED 0x4F).next.processor.registers.r = 0x5A := by
  intro registers machine m actions
  have hleaves : ∀ action ∈ actions, action.LeavesRefresh := by
    simp [actions, Command.LeavesRefresh]
  have hnever : ∀ n < 5, ¬ (m.performAll (actions.take n)).Executes IsSetRefresh := by
    rintro n hn ⟨-, -, hfirst, -⟩
    revert n
    decide +kernel
  have hclean : m.Throughout (fun before => ¬ before.Executes IsSetRefresh) actions :=
    .step (hnever 0 (by decide)) <| .step (hnever 1 (by decide)) <| .step (hnever 2 (by decide)) <|
      .still rfl <| .step (hnever 4 (by decide)) trivial
  have htotal : m.total fetches actions = 5 := by decide +kernel
  have hget : (machine 0xED 0x5F).Executes IsGetRefresh := by
    refine ⟨?_, ?_, ?_, ?_⟩ <;> decide +kernel
  have hset : (machine 0xED 0x4F).Executes IsSetRefresh := by
    refine ⟨?_, ?_, ?_, ?_⟩ <;> decide +kernel
  have hcounted := (refresh_counts m).1 actions hleaves hclean
  rw [htotal] at hcounted
  refine ⟨hleaves, hclean, htotal, hcounted, ?_, hget, ((refresh_counts _).2.1 hget).1, hset,
    ((refresh_counts _).2.2 hset).1⟩
  decide +kernel

end Machine

end Z80

import Mathlib.Data.Nat.Find
import Z80.Proofs.Step

/-!
# Runs

A run takes whole steps until its budget of T-states is used up.  This file compares it with the
plain iteration `Machine.steps`, which takes a given number of steps and looks at no budget: a run
is the iteration with the least number of steps that use up the budget (`run_eq_steps`).  That
number exists because no step is shorter than four T-states, and the run overshoots its budget by
less than the longest step, which takes 23.

Since iterations compose (`steps_add`), a budget may be spent in slices.
-/

namespace Z80

/-! ## How long a step is -/

/-- An operand's duration is bounded above by what bounds all three choices. -/
lemma Operand.duration_le (o : Operand) {n r m d : Nat} (hr : r ≤ n) (hm : m ≤ n) (hd : d ≤ n) :
    o.duration r m d ≤ n := by
  cases o with
  | register _ => exact hr
  | atHL => exact hm
  | atIndex _ => exact hd

/-- From its last opcode fetch on, no operation takes more than 19 T-states. -/
lemma Operation.duration_add_extraDuration_le (op : Operation) :
    op.duration + op.extraDuration ≤ 19 := by
  cases op with
  | load target source =>
    have htarget : target.duration 4 7 15 ≤ 19 :=
      target.duration_le (by decide) (by decide) (by decide)
    have hsource : source.duration 4 7 15 ≤ 19 :=
      source.duration_le (by decide) (by decide) (by decide)
    exact Nat.max_le.2 ⟨htarget, hsource⟩
  | loadAccumulator p => cases p <;> decide
  | storeAccumulator p => cases p <;> decide
  | loadImmediate o | increment o | decrement o | combine _ o | shift _ o _ | testBit _ o
  | resetBit _ o _ | setBit _ o _ => exact o.duration_le (by decide) (by decide) (by decide)
  | blockTransfer _ repeating | blockSearch _ repeating | blockInput _ repeating
  | blockOutput _ repeating => cases repeating <;> exact Nat.le_of_ble_eq_true rfl
  | _ => exact Nat.le_of_ble_eq_true rfl

/-- With everything that may be added, an instruction takes at most 23 T-states. -/
lemma Instruction.duration_add_extraDuration_le (i : Instruction) :
    i.duration + i.extraDuration ≤ 23 := by
  have hoperation := i.operation.duration_add_extraDuration_le
  have hfetches : i.page.fetches ≤ 2 := by
    cases i.page <;> exact Nat.le_of_ble_eq_true rfl
  unfold duration extraDuration
  omega

/-- An instruction takes at most 23 T-states. -/
lemma Instruction.durationOf_le (i : Instruction) (effect : Effect) :
    i.durationOf effect ≤ 23 := by
  have hsum := i.duration_add_extraDuration_le
  unfold durationOf
  split <;> omega

/-- Accepting an interrupt takes at most 19 T-states. -/
lemma Interrupt.duration_le (interrupt : Interrupt) (mode : UInt8) :
    interrupt.duration mode ≤ 19 := by
  unfold duration
  split
  · decide
  · split <;> decide

namespace Processor

variable {β : Type} [Bus β] (p : Processor) (bus : β)

/-- No step is longer than 23 T-states. -/
lemma duration_step_le : (p.step bus).duration ≤ 23 := by
  rcases p.step_cases bus with ⟨i, -, h⟩ | ⟨-, -, h⟩ | ⟨-, h⟩ <;> rw [h]
  · exact Nat.le_trans (i.duration_le _) (by decide)
  · exact Nat.le_of_ble_eq_true rfl
  · exact Instruction.durationOf_le _ _

/-- The count of T-states grows by the duration of the step. -/
lemma ticks_step : (p.step bus).processor.ticks = p.ticks + (p.step bus).duration := by
  rcases p.step_cases bus with ⟨i, -, h⟩ | ⟨-, -, h⟩ | ⟨-, h⟩ <;> rw [h] <;> rfl

end Processor

namespace Machine

/-! ## Iterating steps -/

/-- One run after another, as one run. -/
def Run.andThen (first second : Run) : Run where
  machine := second.machine
  duration := first.duration + second.duration
  events := first.events ++ second.events

/-- No step, as a run. -/
def idle (m : Machine) : Run where
  machine := m
  duration := 0
  events := #[]

/-- The machine after one step. -/
def next (m : Machine) : Machine :=
  ofStep m.step

/-- One step, as a run. -/
def once (m : Machine) : Run where
  machine := m.next
  duration := m.step.duration
  events := m.step.event.toArray

/-- A given number of steps. -/
def steps (m : Machine) : Nat → Run
  | 0 => m.idle
  | k + 1 => m.once.andThen (m.next.steps k)

@[simp] lemma idle_andThen (m : Machine) (r : Run) : m.idle.andThen r = r := by
  simp [idle, Run.andThen]

@[simp] lemma andThen_idle (r : Run) : r.andThen r.machine.idle = r := by
  simp [idle, Run.andThen]

lemma andThen_assoc (r s t : Run) : (r.andThen s).andThen t = r.andThen (s.andThen t) := by
  simp [Run.andThen, Nat.add_assoc, Array.append_assoc]

/-- Steps can be taken in two parts. -/
lemma steps_add (m : Machine) (j k : Nat) :
    m.steps (j + k) = (m.steps j).andThen ((m.steps j).machine.steps k) := by
  induction j generalizing m with
  | zero => rw [Nat.zero_add, steps, idle_andThen, idle]
  | succ j ih =>
    rw [Nat.add_right_comm, steps, steps, ih, andThen_assoc]
    rfl

/-- One more step comes last. -/
lemma duration_steps_succ (m : Machine) (k : Nat) :
    (m.steps (k + 1)).duration = (m.steps k).duration + (m.steps k).machine.step.duration := by
  rw [steps_add]
  rfl

/-- The machine of one more step is that after the last one. -/
lemma machine_steps_succ (m : Machine) (k : Nat) :
    (m.steps (k + 1)).machine = (m.steps k).machine.next := by
  rw [steps_add]
  rfl

/-- The count of T-states grows by the duration of the steps. -/
lemma ticks_steps (m : Machine) (k : Nat) :
    (m.steps k).machine.processor.ticks = m.processor.ticks + (m.steps k).duration := by
  induction k generalizing m with
  | zero => rfl
  | succ k ih =>
    have hstep : m.next.processor.ticks = m.processor.ticks + m.once.duration :=
      m.processor.ticks_step m.board
    show (m.next.steps k).machine.processor.ticks = _
    rw [ih, hstep, Nat.add_assoc]
    rfl

/-! ## Runs as iterations -/

/-- The given number of steps is the least that uses up the budget. -/
structure IsLength (m : Machine) (budget k : Nat) : Prop where
  /-- The steps use up the budget. -/
  enough : budget ≤ (m.steps k).duration
  /-- Fewer steps do not. -/
  least : ∀ j < k, (m.steps j).duration < budget

/-- There is only one least number of steps. -/
lemma IsLength.unique {m : Machine} {budget j k : Nat} (hj : m.IsLength budget j)
    (hk : m.IsLength budget k) : j = k := by
  rcases Nat.lt_trichotomy j k with hlt | heq | hgt
  · exact absurd hj.enough (Nat.not_le_of_lt (hk.least j hlt))
  · exact heq
  · exact absurd hk.enough (Nat.not_le_of_lt (hj.least k hgt))

/-- Machines whose steps are equally long use up a budget with the same least number of steps. -/
lemma IsLength.congr {m m' : Machine} {budget k : Nat} (h : m.IsLength budget k)
    (hsame : ∀ j ≤ k, (m'.steps j).duration = (m.steps j).duration) : m'.IsLength budget k where
  enough := by
    rw [hsame k (Nat.le_refl k)]
    exact h.enough
  least := by
    intro j hj
    rw [hsame j (Nat.le_of_lt hj)]
    exact h.least j hj

/-- The least number of steps for a budget, and that for what is left of a larger one, add up to the
least number of steps for the larger one. -/
lemma IsLength.add {m : Machine} {a b j k : Nat} (hab : a ≤ b) (hj : m.IsLength a j)
    (hk : (m.steps j).machine.IsLength (b - (m.steps j).duration) k) : m.IsLength b (j + k) := by
  have hsum : ∀ n, (m.steps (j + n)).duration =
      (m.steps j).duration + ((m.steps j).machine.steps n).duration := by
    intro n
    rw [steps_add]
    rfl
  refine ⟨?_, fun i hi => ?_⟩
  · have henough := hk.enough
    rw [hsum]
    omega
  · by_cases hij : i < j
    · exact Nat.lt_of_lt_of_le (hj.least i hij) hab
    · obtain ⟨n, rfl⟩ := Nat.exists_eq_add_of_le (Nat.le_of_not_lt hij)
      have hleast := hk.least n (by omega)
      rw [hsum]
      omega

/-- One step is the least number for the smallest budget. -/
lemma isLength_one (m : Machine) : m.IsLength 1 1 := by
  have hfour : 4 ≤ m.step.duration := m.processor.four_le_duration_step m.board
  refine ⟨?_, fun j hj => ?_⟩
  · rw [duration_steps_succ]
    exact Nat.le_trans (Nat.le_trans (by decide) hfour) (Nat.le_add_left _ _)
  · obtain rfl : j = 0 := by omega
    exact Nat.one_pos

/-- A step after a run notes its event, if it has one, after those of the run. -/
lemma andThen_once (m : Machine) (duration : Nat) (events : Array Event) :
    Run.andThen { machine := m, duration, events } m.once =
      { machine := m.next
        duration := duration + m.step.duration
        events :=
          match m.step.event with
          | none => events
          | some event => events.push event } := by
  cases hevent : m.step.event with
  | none => simp [Run.andThen, once, hevent]
  | some event => simp [Run.andThen, once, hevent]

/-- A run that goes on after some T-states takes the least number of steps for the rest of its
budget. -/
lemma runFrom_eq (m : Machine) (budget elapsed : Nat) (events : Array Event) :
    ∃ k, m.IsLength (budget - elapsed) k ∧
      m.runFrom budget elapsed events =
        Run.andThen { machine := m, duration := elapsed, events } (m.steps k) := by
  fun_induction runFrom m budget elapsed events with
  | case1 m elapsed events helapsed s ih =>
    obtain ⟨k, hk, hrun⟩ := ih
    have hone : (m.steps 1).duration = s.duration := Nat.add_zero _
    refine ⟨1 + k, m.isLength_one.add (by omega) ?_, ?_⟩
    · rw [hone, Nat.sub_sub]
      exact hk
    · rw [hrun, Nat.add_comm 1 k, steps, ← andThen_assoc, andThen_once]
      rfl
  | case2 m elapsed events helapsed =>
    refine ⟨0, ⟨?_, fun j hj => absurd hj j.not_lt_zero⟩, ?_⟩
    · rw [Nat.sub_eq_zero_of_le (Nat.le_of_not_lt helapsed)]
      exact Nat.zero_le _
    · exact (andThen_idle _).symm

/-- Enough steps use up every budget. -/
lemma exists_le_duration_steps (m : Machine) (budget : Nat) :
    ∃ k, budget ≤ (m.steps k).duration := by
  obtain ⟨k, hk, -⟩ := m.runFrom_eq budget 0 #[]
  exact ⟨k, hk.enough⟩

/-- The least number of steps that use up a budget. -/
def runLength (m : Machine) (budget : Nat) : Nat :=
  Nat.find (m.exists_le_duration_steps budget)

/-- The least number of steps that use up a budget is that. -/
lemma isLength_runLength (m : Machine) (budget : Nat) : m.IsLength budget (m.runLength budget) where
  enough := Nat.find_spec (m.exists_le_duration_steps budget)
  least _ hj := Nat.lt_of_not_le (Nat.find_min (m.exists_le_duration_steps budget) hj)

/-- A run with a budget takes any number of steps that is the least to use it up. -/
lemma IsLength.run_eq {m : Machine} {budget k : Nat} (h : m.IsLength budget k) :
    m.run budget = m.steps k := by
  obtain ⟨j, hj, hrun⟩ := m.runFrom_eq budget 0 #[]
  obtain rfl := hj.unique h
  exact hrun.trans (m.idle_andThen _)

/-- A run takes the least number of steps that use up its budget. -/
lemma run_eq_steps (m : Machine) (budget : Nat) : m.run budget = m.steps (m.runLength budget) :=
  (m.isLength_runLength budget).run_eq

/-- The last step of a run begins before the budget is used up. -/
lemma IsLength.duration_le {m : Machine} {budget k : Nat} (h : m.IsLength budget k) :
    (m.steps k).duration ≤ budget + 22 := by
  cases k with
  | zero => exact Nat.zero_le _
  | succ k =>
    have hbefore := h.least k k.lt_succ_self
    have hlast : (m.steps k).machine.step.duration ≤ 23 := Processor.duration_step_le _ _
    rw [duration_steps_succ]
    omega

/-- A run with a budget can be cut at any smaller budget. -/
lemma run_andThen_run (m : Machine) {a b : Nat} (hab : a ≤ b) :
    m.run b = (m.run a).andThen ((m.run a).machine.run (b - (m.run a).duration)) := by
  have hfirst := m.isLength_runLength a
  rw [hfirst.run_eq]
  set middle := m.steps (m.runLength a)
  have hsecond := middle.machine.isLength_runLength (b - middle.duration)
  rw [hsecond.run_eq, (hfirst.add hab hsecond).run_eq, steps_add]

/-- **The law of runs.**  A run takes the least number of steps that use up its budget; it takes
none for the empty budget and overshoots no budget by more than 22 T-states.  The count of T-states
grows by what the run reports, and a run that is cut at a smaller budget and goes on with what is
left is the whole run. -/
theorem run_law (m : Machine) (budget : Nat) :
    (∃ k, m.IsLength budget k ∧ m.run budget = m.steps k) ∧
    m.run 0 = m.idle ∧
    budget ≤ (m.run budget).duration ∧
    (m.run budget).duration ≤ budget + 22 ∧
    (m.run budget).machine.processor.ticks = m.processor.ticks + (m.run budget).duration ∧
    ∀ a ≤ budget, m.run budget =
      (m.run a).andThen ((m.run a).machine.run (budget - (m.run a).duration)) := by
  have hlength := m.isLength_runLength budget
  have hrun := m.run_eq_steps budget
  have hempty : m.IsLength 0 0 := ⟨Nat.zero_le _, fun j hj => absurd hj j.not_lt_zero⟩
  refine ⟨⟨_, hlength, hrun⟩, hempty.run_eq, ?_, ?_, ?_, fun a ha => m.run_andThen_run ha⟩
  · rw [hrun]
    exact hlength.enough
  · rw [hrun]
    exact hlength.duration_le
  · rw [hrun]
    exact m.ticks_steps _

end Machine

end Z80

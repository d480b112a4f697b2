import Mathlib.Algebra.BigOperators.Intervals
import Z80.Proofs.Command

/-!
# Two machines under the same commands

What one step keeps, and every command that takes no step, a sequence of commands keeps: a machine is a trace
whose history is not looked at, so the induction over traces serves machines as well
(`Machine.performAll_induction`).  Requests and withdrawals change what waits and nothing else
(`Machine.exists_performAll_signals`).

To say that a part of the state cannot be seen, one gives the same commands to two machines that
differ in that part and compares what they report.  `Lockstep` collects what has to be shown for
that: a relation between machines under which steps are equally long, and which steps and other
commands keep.  A run stops when its budget is used up, so related machines take the same number of
steps in it (`Lockstep.runLength_eq`), and sequences of commands report the same T-states and end in
related machines (`Lockstep.performAll`).

What is shown of steps may depend on the machine from which the step is taken.  The commands are then
restricted to those that take all their steps from such machines, which is `Machine.Throughout`.
-/

namespace Z80

namespace Machine

/-! ## Sequences of commands -/

/-- The machine after a sequence of commands, the first one first. -/
def performAll (m : Machine) (actions : List Command) : Machine :=
  actions.foldl perform m

/-- The T-states that a command reports: those of its steps. -/
def report (m : Machine) (action : Command) : Nat :=
  match action with
  | .step => m.step.duration
  | .run budget => (m.run budget).duration
  | _ => 0

/-- The T-states that each command of a sequence reports. -/
def reports (m : Machine) : List Command → List Nat
  | [] => []
  | action :: actions => m.report action :: (m.perform action).reports actions

/-- The number of steps that a command takes. -/
def stepCount (m : Machine) (action : Command) : Nat :=
  match action with
  | .step => 1
  | .run budget => m.runLength budget
  | _ => 0

/-- Every step that a sequence of commands takes is taken from a machine with the property. -/
def Throughout (P : Machine → Prop) (m : Machine) : List Command → Prop
  | [] => True
  | action :: actions =>
    (∀ j < m.stepCount action, P (m.steps j).machine) ∧ (m.perform action).Throughout P actions

/-- Every machine has the trivial property. -/
lemma throughout_true (m : Machine) (actions : List Command) : m.Throughout (fun _ => True) actions := by
  induction actions generalizing m with
  | nil => trivial
  | cons action actions ih => exact ⟨fun _ _ => trivial, ih (m.perform action)⟩

/-- A step is taken from the machine itself. -/
lemma Throughout.step {P : Machine → Prop} {m : Machine} {actions : List Command} (h : P m)
    (hrest : m.next.Throughout P actions) : m.Throughout P (.step :: actions) := by
  refine ⟨fun j hj => ?_, hrest⟩
  obtain rfl : j = 0 := Nat.lt_one_iff.mp hj
  exact h

/-- A command that takes no step asks for nothing. -/
lemma Throughout.still {P : Machine → Prop} {m : Machine} {action : Command}
    {actions : List Command} (hnone : m.stepCount action = 0)
    (hrest : (m.perform action).Throughout P actions) : m.Throughout P (action :: actions) := by
  refine ⟨fun j hj => ?_, hrest⟩
  rw [hnone] at hj
  exact absurd hj j.not_lt_zero

/-- The sum of a quantity over all machines from which a sequence of commands takes a step. -/
def total (f : Machine → Nat) (m : Machine) : List Command → Nat
  | [] => 0
  | action :: actions =>
    ∑ j ∈ Finset.range (m.stepCount action), f (m.steps j).machine +
      (m.perform action).total f actions

/-- A sequence of commands is given one by one. -/
lemma performAll_cons (m : Machine) (action : Command) (actions : List Command) :
    m.performAll (action :: actions) = (m.perform action).performAll actions :=
  rfl

/-- The machine of a trace is the machine after the commands. -/
lemma machine_trace_performAll (t : Trace) (actions : List Command) :
    (t.performAll actions).machine = t.machine.performAll actions := by
  induction actions generalizing t with
  | nil => rfl
  | cons action actions ih => exact ih (t.perform action)

section Induction

/-! What is shown of machines is shown of traces whose history is not looked at. -/

variable {P : Machine → Prop} (hstep : ∀ m, P m → P m.next)

include hstep

/-- What a step keeps, any number of steps keeps. -/
lemma steps_induction (k : Nat) {m : Machine} (h : P m) : P (m.steps k).machine := by
  rw [← Trace.machine_steps ⟨m, []⟩ k]
  exact @Trace.steps_induction (fun t => P t.machine) (fun t => hstep t.machine) k ⟨m, []⟩ h

/-- What a step keeps, and every command of a sequence that takes no step, the sequence keeps. -/
lemma performAll_induction {actions : List Command}
    (hother : ∀ m, ∀ action ∈ actions, action.steps = false → P m → P (m.perform action))
    {m : Machine} (h : P m) : P (m.performAll actions) := by
  rw [← machine_trace_performAll ⟨m, []⟩ actions]
  exact @Trace.performAll_induction (fun t => P t.machine) (fun t => hstep t.machine) actions
    (fun t => hother t.machine) ⟨m, []⟩ h

end Induction

/-! ## Counted T-states -/

/-- A command counts the T-states that it reports. -/
lemma ticks_perform (m : Machine) (action : Command) :
    (m.perform action).processor.ticks = m.processor.ticks + m.report action := by
  cases action with
  | step => exact m.processor.ticks_step m.board
  | run budget =>
    show (m.run budget).machine.processor.ticks = m.processor.ticks + (m.run budget).duration
    rw [m.run_eq_steps]
    exact m.ticks_steps _
  | writeBlock start block =>
    rw [processor_perform_writeBlock]
    rfl
  | _ => rfl

/-- The counts of T-states stay the same if they are, as long as the reports are. -/
lemma ticks_performAll {m m' : Machine} {actions : List Command}
    (hreports : m'.reports actions = m.reports actions)
    (hticks : m.processor.ticks = m'.processor.ticks) :
    (m.performAll actions).processor.ticks = (m'.performAll actions).processor.ticks := by
  induction actions generalizing m m' with
  | nil => exact hticks
  | cons action actions ih =>
    obtain ⟨hreport, hrest⟩ := List.cons.inj hreports
    rw [performAll_cons, performAll_cons]
    refine ih hrest ?_
    rw [ticks_perform, ticks_perform, hticks, hreport]

/-! ## Signals -/

/-- The machine with other requests waiting. -/
def withSignals (m : Machine) (request : Option UInt8) (nmi : Bool) : Machine :=
  m.onProcessor fun p => { p with interrupts := { p.interrupts with request, nmi } }

/-- A request or a withdrawal changes what waits and nothing else, and the non-maskable interrupt only if it
requests that. -/
lemma exists_perform_signal (m : Machine) {action : Command} (h : action.isSignal = true) :
    ∃ request nmi, m.perform action = m.withSignals request nmi ∧
      (nmi = true ↔ m.processor.interrupts.nmi = true ∨ .nmi = action) := by
  cases action with
  | interrupt data => exact ⟨some data, m.processor.interrupts.nmi, rfl, by simp⟩
  | requestInterrupt => exact ⟨some _, m.processor.interrupts.nmi, rfl, by simp⟩
  | clearInterrupt => exact ⟨none, m.processor.interrupts.nmi, rfl, by simp⟩
  | nmi => exact ⟨m.processor.interrupts.request, true, rfl, by simp⟩
  | _ => cases h

/-- Requests and withdrawals change what waits and nothing else, and the non-maskable interrupt only if it is
requested. -/
lemma exists_performAll_signals (m : Machine) {actions : List Command}
    (h : ∀ action ∈ actions, action.isSignal = true) :
    ∃ request nmi, m.performAll actions = m.withSignals request nmi ∧
      (nmi = true ↔ m.processor.interrupts.nmi = true ∨ Command.nmi ∈ actions) := by
  induction actions generalizing m with
  | nil => exact ⟨m.processor.interrupts.request, m.processor.interrupts.nmi, rfl, by simp⟩
  | cons action actions ih =>
    rw [List.forall_mem_cons] at h
    obtain ⟨first, firstNmi, hfirst, hfirstNmi⟩ := m.exists_perform_signal h.1
    obtain ⟨request, nmi, hrest, hnmi⟩ := ih (m.withSignals first firstNmi) h.2
    refine ⟨request, nmi, ?_, hnmi.trans ?_⟩
    · rw [performAll_cons, hfirst, hrest]
      rfl
    · show firstNmi = true ∨ _ ↔ _
      rw [hfirstNmi, List.mem_cons, or_assoc]

end Machine

/-! ## Related machines -/

/-- Machines related by `R` stay related under allowed commands and cannot be told apart by the
T-states of their steps, as long as the first machine takes its steps from machines with `P`. -/
structure Lockstep (R : Machine → Machine → Prop) (P : Machine → Prop) (allowed : Command → Prop) :
    Prop where
  /-- Steps are equally long. -/
  duration : ∀ {m m' : Machine}, R m m' → P m → m'.step.duration = m.step.duration
  /-- A step keeps machines related. -/
  next : ∀ {m m' : Machine}, R m m' → P m → R m.next m'.next
  /-- An allowed command that takes no step keeps machines related. -/
  perform : ∀ {m m' : Machine} {action : Command}, allowed action → action.steps = false →
    R m m' → R (m.perform action) (m'.perform action)

namespace Lockstep

variable {R : Machine → Machine → Prop} {P : Machine → Prop} {allowed : Command → Prop}
  (h : Lockstep R P allowed) {m m' : Machine}

include h

/-- Any number of steps keeps machines related and takes equally long. -/
lemma steps (hR : R m m') (k : Nat) (hP : ∀ j < k, P (m.steps j).machine) :
    (m'.steps k).duration = (m.steps k).duration ∧
      R (m.steps k).machine (m'.steps k).machine := by
  induction k with
  | zero => exact ⟨rfl, hR⟩
  | succ k ih =>
    obtain ⟨hduration, hrelated⟩ := ih fun j hj => hP j (Nat.lt_succ_of_lt hj)
    have hlast : P (m.steps k).machine := hP k k.lt_succ_self
    constructor
    · rw [Machine.duration_steps_succ, Machine.duration_steps_succ, hduration,
        h.duration hrelated hlast]
    · rw [Machine.machine_steps_succ, Machine.machine_steps_succ]
      exact h.next hrelated hlast

/-- Related machines take the same number of steps in a run. -/
lemma runLength_eq (hR : R m m') (budget : Nat)
    (hP : ∀ j < m.runLength budget, P (m.steps j).machine) :
    m'.runLength budget = m.runLength budget := by
  have hsame : ∀ k ≤ m.runLength budget, (m'.steps k).duration = (m.steps k).duration :=
    fun k hk => (h.steps hR k fun j hj => hP j (Nat.lt_of_lt_of_le hj hk)).1
  -- Up to that number the steps are equally long, so the budget is used up with the same one.
  exact (m'.isLength_runLength budget).unique ((m.isLength_runLength budget).congr hsame)

/-- A command reports the same T-states and keeps machines related. -/
lemma perform_of_allowed (hR : R m m') {action : Command} (hallowed : allowed action)
    (hP : ∀ j < m.stepCount action, P (m.steps j).machine) :
    m'.report action = m.report action ∧ R (m.perform action) (m'.perform action) := by
  cases action with
  | step => exact ⟨h.duration hR (hP 0 Nat.one_pos), h.next hR (hP 0 Nat.one_pos)⟩
  | run budget =>
    obtain ⟨hduration, hrelated⟩ := h.steps hR (m.runLength budget) hP
    simp only [Machine.report, Machine.perform, Machine.run_eq_steps, h.runLength_eq hR budget hP]
    exact ⟨hduration, hrelated⟩
  | _ => exact ⟨rfl, h.perform hallowed rfl hR⟩

/-- A sequence of commands reports the same T-states and keeps machines related. -/
lemma performAll (hR : R m m') {actions : List Command} (hallowed : ∀ action ∈ actions, allowed action)
    (hP : m.Throughout P actions) :
    m'.reports actions = m.reports actions ∧ R (m.performAll actions) (m'.performAll actions) := by
  induction actions generalizing m m' with
  | nil => exact ⟨rfl, hR⟩
  | cons action actions ih =>
    rw [List.forall_mem_cons] at hallowed
    obtain ⟨hreport, hrelated⟩ := h.perform_of_allowed hR hallowed.1 hP.1
    obtain ⟨hreports, hend⟩ := ih hrelated hallowed.2 hP.2
    refine ⟨?_, hend⟩
    rw [Machine.reports, Machine.reports, hreport, hreports]

end Lockstep

end Z80

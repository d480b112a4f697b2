import Z80.Proofs.Run

/-!
# Commands and histories

Everything that can be done to a machine from outside is a command.  A machine that has been given
commands has a history: the steps it took, each with the machine as it was before the step, and the
requests, withdrawals and resets in between.  A run is in the history step by step.

Laws about all machines that can be reached are laws about traces, a trace being a machine with its
history.  They are proved with `Trace.performAll_induction`: it is enough that one step keeps them,
and every command that takes no step.
-/

namespace Z80

/-! ## Commands -/

/-- What can be done to a machine from outside. -/
inductive Command
  /-- Takes one step. -/
  | step
  /-- Runs with a budget of T-states. -/
  | run (budget : Nat)
  /-- Writes a register by name. -/
  | set (s : Selector) (v : UInt16)
  /-- Replaces the register file. -/
  | restore (registers : Registers)
  /-- Requests a maskable interrupt with the byte of a device. -/
  | interrupt (data : UInt8)
  /-- Requests a maskable interrupt with the byte of the configuration. -/
  | requestInterrupt
  /-- Withdraws the maskable request. -/
  | clearInterrupt
  /-- Requests a non-maskable interrupt. -/
  | nmi
  /-- Resets the processor. -/
  | reset
  /-- Writes a byte of memory. -/
  | write (a : UInt16) (v : UInt8)
  /-- Installs a block of bytes in memory; a block that is too long changes nothing. -/
  | writeBlock (start : UInt16) (block : List UInt8)
  /-- Sets the answer of a port. -/
  | setPortInput (port : UInt16) (v : UInt8)
  /-- Empties the record of port writes. -/
  | drainPortWrites

/-- The machine after a command. -/
def Machine.perform (m : Machine) (action : Command) : Machine :=
  match action with
  | .step => m.next
  | .run budget => (m.run budget).machine
  | .set s v => m.set s v
  | .restore registers => m.onProcessor fun p => p.restore registers
  | .interrupt data => m.onProcessor fun p => p.interrupt data
  | .requestInterrupt => m.onProcessor Processor.requestInterrupt
  | .clearInterrupt => m.onProcessor Processor.clearInterrupt
  | .nmi => m.onProcessor Processor.nmi
  | .reset => m.onProcessor Processor.reset
  | .write a v => m.write a v
  | .writeBlock start block =>
    match m.writeBlock start block with
    | .ok changed => changed
    | .error _ => m
  | .setPortInput port v => m.setPortInput port v
  | .drainPortWrites => m.drainPortWrites

/-- Installing a block keeps the processor. -/
lemma Machine.processor_perform_writeBlock (m : Machine) (start : UInt16) (block : List UInt8) :
    (m.perform (.writeBlock start block)).processor = m.processor := by
  by_cases hlength : addressSpace < block.length
  · simp [perform, writeBlock, Memory.writeBlock, hlength, Except.map]
  · simp [perform, writeBlock, Memory.writeBlock, hlength, Except.map]

/-- Installing a block changes the memory only, and in a way that depends on nothing else. -/
lemma Machine.exists_perform_writeBlock (memory : Memory) (start : UInt16) (block : List UInt8) :
    ∃ memory', ∀ m : Machine, m.board.memory = memory →
      m.perform (.writeBlock start block) =
        { m with board := { m.board with memory := memory' } } := by
  by_cases hlength : addressSpace < block.length
  · refine ⟨memory, fun m hm => ?_⟩
    simp [perform, writeBlock, Memory.writeBlock, hlength, Except.map, ← hm]
  · refine ⟨memory.install start block (Nat.le_of_not_lt hlength), fun m hm => ?_⟩
    simp [perform, writeBlock, Memory.writeBlock, hlength, Except.map, hm]

/-- Whether a command takes steps. -/
def Command.steps : Command → Bool
  | .step | .run _ => true
  | _ => false

/-- Whether a command requests an interrupt or withdraws a request. -/
def Command.isSignal : Command → Bool
  | .interrupt _ | .requestInterrupt | .clearInterrupt | .nmi => true
  | _ => false

/-! ## Histories -/

/-- What happened to a machine, as far as its interrupts are concerned. -/
inductive Occurrence
  /-- A step was taken; `before` is the machine before it. -/
  | stepped (before : Machine)
  /-- A maskable interrupt was requested. -/
  | requested (data : UInt8)
  /-- The maskable request was withdrawn. -/
  | withdrawn
  /-- A non-maskable interrupt was requested. -/
  | nmi
  /-- The processor was reset. -/
  | reset

/-- A machine and what happened to it, the latest first. -/
structure Trace where
  /-- The machine. -/
  machine : Machine
  /-- What happened to it. -/
  history : List Occurrence

namespace Trace

/-- The trace after one step. -/
def step (t : Trace) : Trace where
  machine := t.machine.next
  history := .stepped t.machine :: t.history

/-- The trace after a given number of steps. -/
def steps (t : Trace) : Nat → Trace
  | 0 => t
  | k + 1 => t.step.steps k

/-- The trace after a command. -/
def perform (t : Trace) (action : Command) : Trace where
  machine := t.machine.perform action
  history :=
    match action with
    | .step => t.step.history
    | .run budget => (t.steps (t.machine.runLength budget)).history
    | .interrupt data => .requested data :: t.history
    | .requestInterrupt => .requested t.machine.processor.config.interruptByte :: t.history
    | .clearInterrupt => .withdrawn :: t.history
    | .nmi => .nmi :: t.history
    | .reset => .reset :: t.history
    | _ => t.history

/-- The trace after a sequence of commands, the first one first. -/
def performAll (t : Trace) (actions : List Command) : Trace :=
  actions.foldl perform t

/-- The trace of a machine to which nothing has happened, on a given board. -/
def start (config : Config) (board : Board) : Trace where
  machine := { processor := { config }, board }
  history := []

/-- The machine of a trace of steps is that after the steps. -/
lemma machine_steps (t : Trace) (k : Nat) :
    (t.steps k).machine = (t.machine.steps k).machine := by
  induction k generalizing t with
  | zero => rfl
  | succ k ih =>
    rw [steps, ih]
    rfl

/-- A run is the trace of its steps. -/
lemma perform_run (t : Trace) (budget : Nat) :
    t.perform (.run budget) = t.steps (t.machine.runLength budget) := by
  have hmachine : (t.machine.run budget).machine =
      (t.steps (t.machine.runLength budget)).machine := by
    rw [t.machine.run_eq_steps, machine_steps]
  show Trace.mk (t.machine.run budget).machine _ = _
  rw [hmachine]

section Induction

variable {P : Trace → Prop} (hstep : ∀ t, P t → P t.step)

include hstep

/-- What a step keeps, any number of steps keeps. -/
lemma steps_induction (k : Nat) {t : Trace} (h : P t) : P (t.steps k) := by
  induction k generalizing t with
  | zero => exact h
  | succ k ih => exact ih (hstep t h)

/-- What a step keeps, and every command of a sequence that takes no step, the sequence keeps. -/
lemma performAll_induction {actions : List Command}
    (hother : ∀ t, ∀ action ∈ actions, action.steps = false → P t → P (t.perform action))
    {t : Trace} (h : P t) : P (t.performAll actions) := by
  refine List.foldlRecOn actions perform h fun t ht action haction => ?_
  cases action with
  | step => exact hstep t ht
  | run budget =>
    rw [perform_run]
    exact steps_induction hstep _ ht
  | _ => exact hother t _ haction rfl ht

end Induction

end Trace

end Z80

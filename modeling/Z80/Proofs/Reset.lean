import Z80.Bus.Traced
import Z80.Proofs.Bookkeeping

/-!
# A reset processor is a new one

A reset puts back registers and interrupts and leaves the configuration and the count of T-states.
Nothing that a processor does depends on that count, so a processor that has been reset, whatever was
done to it before, cannot be told from a new one with the same configuration, but for the count
itself (`Processor.drive_reset`).

The processor is driven here through its own interface, on any bus: `Processor.act` carries out one
action and `Processor.drive` a sequence of them, with everything that can be observed after each.
Since the bus may be one that keeps a record, what is observed includes the accesses made to it.
-/

namespace Z80

/-! ## Driving a processor -/

/-- What can be done to a processor from outside. -/
inductive Action
  /-- Takes one step. -/
  | step
  /-- Writes a register by name. -/
  | set (s : Selector) (v : UInt16)
  /-- Replaces the register file. -/
  | restore (registers : Registers)
  /-- Requests a maskable interrupt with the byte of a device. -/
  | interrupt (data : UInt8)
  /-- Requests a maskable interrupt with the byte of the configuration. -/
  | requestInterrupt
  /-- Withdraws the maskable request. -/
  | clearInterrupt
  /-- Requests a non-maskable interrupt. -/
  | nmi
  /-- Resets the processor. -/
  | reset

namespace Processor

/-- A new processor. -/
def new (config : Config) : Processor where
  config := config

variable {β : Type} [Bus β]

/-- No step: no time passes and the bus stays as it is. -/
def still (p : Processor) (bus : β) : Step β where
  processor := p
  bus := bus
  duration := 0

/-- Carries out an action. -/
def act (p : Processor) (bus : β) : Action → Step β
  | .step => p.step bus
  | .set s v => (p.set s v).still bus
  | .restore registers => (p.restore registers).still bus
  | .interrupt data => (p.interrupt data).still bus
  | .requestInterrupt => p.requestInterrupt.still bus
  | .clearInterrupt => p.clearInterrupt.still bus
  | .nmi => p.nmi.still bus
  | .reset => p.reset.still bus

/-- Carries out actions one after the other and lists what each of them gives. -/
def drive (p : Processor) (bus : β) : List Action → List (Step β)
  | [] => []
  | action :: actions =>
    let s := p.act bus action
    s :: s.processor.drive s.bus actions

/-! ## Later processors -/

/-- The processor with a count of T-states that is larger by `n`. -/
def later (p : Processor) (n : Nat) : Processor :=
  p.withTicks (p.ticks + n)

end Processor

/-- The step as it is taken by a processor whose count of T-states is larger by `n`. -/
def Step.later {β : Type} (s : Step β) (n : Nat) : Step β :=
  { s with processor := s.processor.later n }

namespace Processor

variable {β : Type} [Bus β] (p : Processor) (bus : β) (n : Nat)

/-- A later processor takes the same step, later. -/
lemma step_later : (p.later n).step bus = (p.step bus).later n := by
  have hcount : p.ticks + n + (p.step bus).duration = (p.step bus).processor.ticks + n := by
    rw [p.ticks_step bus]
    exact Nat.add_right_comm _ _ _
  rw [later, step_withTicks, hcount]
  rfl

/-- A later processor does the same under every action, later. -/
lemma act_later (action : Action) : (p.later n).act bus action = (p.act bus action).later n := by
  cases action with
  | step => exact p.step_later bus n
  | _ => rfl

/-- A later processor does the same under any actions, later. -/
lemma drive_later (actions : List Action) :
    (p.later n).drive bus actions = (p.drive bus actions).map fun s => s.later n := by
  induction actions generalizing p bus with
  | nil => rfl
  | cons action actions ih =>
    rw [drive, drive, act_later, List.map_cons]
    exact congrArg _ (ih _ _)

/-- A reset leaves a new processor with the same configuration, later by the count of T-states. -/
lemma reset_eq_later : p.reset = (new p.config).later p.ticks := by
  have hcount : Ticks.zero + p.ticks = p.ticks := Nat.zero_add p.ticks
  show p.reset = (new p.config).withTicks (Ticks.zero + p.ticks)
  rw [hcount]
  rfl

/-- **A reset processor does what a new one does.**  Whatever state a processor is in, a reset takes
no time and leaves the bus, the configuration and the count of T-states alone.  Under any actions after
it, every action gives what it gives for a new processor with the same configuration on the same bus:
the same T-states, the same accesses to the bus, the same registers and the same waiting interrupts.
Only the count of T-states stays larger, by what it was at the reset. -/
theorem drive_reset (p : Processor) (bus : Traced β) (actions : List Action) :
    p.act bus .reset = p.reset.still bus ∧
    p.reset.config = p.config ∧ p.reset.ticks = p.ticks ∧
    p.drive bus (.reset :: actions) =
      p.reset.still bus ::
        ((new p.config).drive bus actions).map fun s => s.later p.ticks := by
  have hdrive : p.reset.drive bus actions =
      ((new p.config).drive bus actions).map fun s => s.later p.ticks := by
    rw [reset_eq_later, drive_later]
  exact ⟨rfl, rfl, rfl, congrArg (List.cons (p.reset.still bus)) hdrive⟩

end Processor

end Z80

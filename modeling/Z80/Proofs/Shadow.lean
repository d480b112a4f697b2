import Z80.Proofs.Frame
import Z80.Proofs.Hidden
import Z80.Proofs.Reset

/-!
# The shadow bank

Two machines that differ in their shadow banks only cannot be told apart until an instruction exchanges
registers with it.  This file follows another shadow bank through a step (`Processor.step_withShadow`)
and from there through any actions (`Processor.drive_withShadow`) and commands
(`Machine.lockstep_withShadow`), and puts the result beside the frame of single steps
(`register_frame`).
-/

namespace Z80

/-! ## Steps with another shadow bank -/

/-- The registers with another shadow bank. -/
def Registers.withShadow (k : Registers) (shadow : Bank) : Registers :=
  { k with shadow }

/-- An operation that does not exchange registers with the shadow bank does the same whatever is there,
and leaves it. -/
lemma Operation.plan_withShadow (op : Operation) (h : Part.shadow ∉ op.changes) (d : Int8)
    (immediate : UInt16) (k : Registers) (shadow : Bank) :
    op.plan d immediate (k.withShadow shadow) =
      (op.plan d immediate k).onRegisters fun rest => rest.withShadow shadow := by
  have hshadow : op.exchangesShadow = true → (fun _ => shadow) = id := by
    intro hexchanges
    refine absurd ?_ h
    cases op with
    | exchangeAF | exchangeMain => exact List.mem_cons_self
    | _ => cases hexchanges
  exact op.plan_apply { shadow := fun _ => shadow } (fun _ => rfl) hshadow d immediate k

/-- Accepting an interrupt leaves the shadow bank as it is. -/
lemma Registers.accept_withShadow (k : Registers) (shadow : Bank) (i : Interrupt) :
    (k.withShadow shadow).accept i =
      (k.accept i).onRegisters fun rest => rest.withShadow shadow := by
  cases i with
  | nonMaskable => rfl
  | maskable data =>
    have him : (k.withShadow shadow).im = k.im := rfl
    simp only [accept, him]
    split
    · rfl
    · split <;> rfl

namespace Processor

/-- The processor with another shadow bank. -/
def withShadow (p : Processor) (shadow : Bank) : Processor :=
  { p with registers := p.registers.withShadow shadow }

/-- A step that does not exchange registers with the shadow bank is the same step with another one. -/
lemma step_withShadow {β : Type} [Bus β] {p : Processor} {bus : β}
    (h : p.mayChange bus .shadow = false) (shadow : Bank) :
    (p.withShadow shadow).step bus =
      { p.step bus with processor := (p.step bus).processor.withShadow shadow } := by
  obtain ⟨i, haccepts, hstep⟩ | ⟨haccepts, hhalted, hstep⟩ | ⟨hready, hstep⟩ := p.step_cases bus
  · have hother : (p.withShadow shadow).accepts? = some i := haccepts
    have hplan : (p.withShadow shadow).looked.registers.accept i =
        (p.registers.accept i).onRegisters fun rest => rest.withShadow shadow :=
      p.registers.accept_withShadow shadow i
    rw [step_of_accepts hother, hstep, acceptInterrupt, hplan, Plan.run_onRegisters]
    rfl
  · have hother : (p.withShadow shadow).accepts? = none := haccepts
    rw [step_of_halted hother hhalted, hstep]
    rfl
  · have hother : (p.withShadow shadow).Ready := ⟨hready.accepts, hready.halted⟩
    set i := decodeAt bus p.registers.pc
    have hplan : i.plan (p.withShadow shadow).looked.registers =
        (i.plan p.registers).onRegisters fun rest => rest.withShadow shadow :=
      i.operation.plan_withShadow (notMem_changes hready h) i.displacement i.immediate
        (i.fetched p.registers) shadow
    have hpc : decodeAt bus (p.withShadow shadow).registers.pc = i := rfl
    rw [step_of_ready hother, hpc, hstep, execute, hplan, Plan.run_onRegisters]
    rfl

end Processor

/-! ## Processors driven with another shadow bank -/

/-- The register belongs to the shadow bank. -/
def Selector.isShadow : Selector → Bool
  | .shadowAF | .shadowBC | .shadowDE | .shadowHL => true
  | _ => false

/-- Writing a register outside the shadow bank does the same with another one. -/
lemma Registers.set_withShadow (k : Registers) (shadow : Bank) {s : Selector}
    (h : s.isShadow = false) (v : UInt16) :
    (k.withShadow shadow).set s v = (k.set s v).withShadow shadow := by
  cases s with
  | shadowAF | shadowBC | shadowDE | shadowHL => cases h
  | _ => rfl

/-- The action leaves the shadow bank to the program. -/
def Action.LeavesShadow : Action → Prop
  | .set s _ => s.isShadow = false
  | .restore _ | .reset => False
  | _ => True

/-- The step with another shadow bank in the end. -/
def Step.withShadow {β : Type} (s : Step β) (shadow : Bank) : Step β :=
  { s with processor := s.processor.withShadow shadow }

namespace Processor

variable {β : Type} [Bus β]

/-- No step of these actions exchanges registers with the shadow bank. -/
def SparesShadow (p : Processor) (bus : β) : List Action → Prop
  | [] => True
  | action :: actions =>
    (action = .step → p.mayChange bus .shadow = false) ∧
      (p.act bus action).processor.SparesShadow (p.act bus action).bus actions

/-- An action does the same with another shadow bank. -/
lemma act_withShadow {p : Processor} {bus : β} {action : Action} (hleaves : action.LeavesShadow)
    (hspares : action = .step → p.mayChange bus .shadow = false) (shadow : Bank) :
    (p.withShadow shadow).act bus action = (p.act bus action).withShadow shadow := by
  cases action with
  | step => exact step_withShadow (hspares rfl) shadow
  | set s v =>
    exact congrArg (fun registers => ({ p with registers } : Processor).still bus)
      (p.registers.set_withShadow shadow hleaves v)
  | restore | reset => exact hleaves.elim
  | _ => rfl

/-- Under any actions, everything that can be observed is the same with another shadow bank. -/
lemma drive_withShadow {p : Processor} {bus : β} {actions : List Action}
    (hleaves : ∀ action ∈ actions, action.LeavesShadow) (hspares : p.SparesShadow bus actions)
    (shadow : Bank) :
    (p.withShadow shadow).drive bus actions =
      (p.drive bus actions).map fun s => s.withShadow shadow := by
  induction actions generalizing p bus with
  | nil => rfl
  | cons action actions ih =>
    rw [List.forall_mem_cons] at hleaves
    rw [drive, drive, act_withShadow hleaves.1 hspares.1, List.map_cons]
    exact congrArg _ (ih hleaves.2 hspares.2)

end Processor

/-! ## Machines with another shadow bank -/

/-- The command leaves the shadow bank to the program. -/
def Command.LeavesShadow : Command → Prop
  | .set s _ => s.isShadow = false
  | .restore _ | .reset => False
  | _ => True

namespace Machine

/-- The machine with another shadow bank. -/
def withShadow (m : Machine) (shadow : Bank) : Machine :=
  m.onProcessor fun p => p.withShadow shadow

/-- The next step does not exchange registers with the shadow bank. -/
def SparesShadow (m : Machine) : Prop :=
  m.processor.mayChange m.board .shadow = false

/-- A step that spares the shadow bank is the same step with another one. -/
lemma step_withShadow {m : Machine} (h : m.SparesShadow) (shadow : Bank) :
    (m.withShadow shadow).step =
      { m.step with processor := m.step.processor.withShadow shadow } :=
  Processor.step_withShadow h shadow

/-- A command that takes no step does the same with another shadow bank, which it leaves there unless
it sets registers of that bank. -/
lemma exists_perform_withShadow (m : Machine) (shadow : Bank) {action : Command}
    (haction : action.steps = false) :
    ∃ shadow', (action.LeavesShadow → shadow' = shadow) ∧
      (m.withShadow shadow).perform action = (m.perform action).withShadow shadow' := by
  cases action with
  | step | run => cases haction
  | set s v =>
    cases s with
    | shadowAF | shadowBC | shadowDE | shadowHL => exact ⟨_, fun h => absurd h.symm nofun, rfl⟩
    | _ => exact ⟨shadow, fun _ => rfl, rfl⟩
  | restore | reset => exact ⟨_, False.elim, rfl⟩
  | writeBlock start block =>
    obtain ⟨memory, hperform⟩ := exists_perform_writeBlock m.board.memory start block
    rw [hperform m rfl, hperform (m.withShadow shadow) rfl]
    exact ⟨shadow, fun _ => rfl, rfl⟩
  | _ => exact ⟨shadow, fun _ => rfl, rfl⟩

/-- The second machine is the first with another shadow bank, of which something is known. -/
def HasShadow (known : Bank → Prop) (m m' : Machine) : Prop :=
  ∃ shadow, known shadow ∧ m' = m.withShadow shadow

/-- Machines with different shadow banks go in lockstep as long as no step exchanges registers with
them.  What is known of the other shadow bank stays known if no command sets registers of it. -/
lemma lockstep_withShadow {known : Bank → Prop} {allowed : Command → Prop}
    (hallowed : ∀ action, allowed action → action.LeavesShadow ∨ ∀ shadow, known shadow) :
    Lockstep (HasShadow known) SparesShadow allowed where
  duration := by
    rintro m m' ⟨shadow, -, rfl⟩ hspares
    rw [step_withShadow hspares]
  next := by
    rintro m m' ⟨shadow, hknown, rfl⟩ hspares
    exact ⟨shadow, hknown, congrArg ofStep (step_withShadow hspares shadow)⟩
  perform := by
    rintro m m' action haction hsteps ⟨shadow, hknown, rfl⟩
    obtain ⟨shadow', hleaves, hperform⟩ := m.exists_perform_withShadow shadow hsteps
    refine ⟨shadow', ?_, hperform⟩
    obtain hkeeps | hall := hallowed action haction
    · rw [hleaves hkeeps]
      exact hknown
    · exact hall shadow'

/-- Commands whose steps spare the shadow bank do the same with another one. -/
lemma performAll_withShadow {m : Machine} (shadow : Bank) {actions : List Command}
    (hspares : m.Throughout SparesShadow actions) :
    (m.withShadow shadow).reports actions = m.reports actions ∧
      ∃ shadow', (m.withShadow shadow).performAll actions =
        (m.performAll actions).withShadow shadow' := by
  have hlockstep : Lockstep (HasShadow fun _ => True) SparesShadow fun _ => True :=
    lockstep_withShadow fun _ _ => Or.inr fun _ => trivial
  obtain ⟨hreports, shadow', -, hend⟩ :=
    hlockstep.performAll ⟨shadow, trivial, rfl⟩ (fun _ _ => trivial) hspares
  exact ⟨hreports, shadow', hend⟩

/-- If no command sets registers of it either, the other shadow bank is still there in the end. -/
lemma performAll_withShadow_of_leaves {m : Machine} (shadow : Bank) {actions : List Command}
    (hspares : m.Throughout SparesShadow actions)
    (hleaves : ∀ action ∈ actions, action.LeavesShadow) :
    (m.withShadow shadow).performAll actions = (m.performAll actions).withShadow shadow := by
  have hlockstep : Lockstep (HasShadow fun other => other = shadow) SparesShadow
      Command.LeavesShadow := lockstep_withShadow fun _ => Or.inl
  obtain ⟨-, shadow', rfl, hend⟩ := hlockstep.performAll ⟨shadow, rfl, rfl⟩ hleaves hspares
  exact hend

end Machine

/-- **The register frame.**  A step keeps every part of the registers that the table does not say it may
change, whatever bus it is taken on.  As long as no step exchanges registers with the shadow bank,
nothing else depends on what is there: a processor with another shadow bank gives the same under all
actions that leave the bank to the program, the same T-states, accesses and registers but for the
bank itself.  A machine with another shadow bank reports the same T-states under any commands, and in the
end the two differ in their shadow banks only; each keeps its own if no command sets registers of it. -/
theorem register_frame :
    (∀ {β : Type} [Bus β] (p : Processor) (bus : β),
      (∀ part : Part, p.mayChange bus part = false →
        part.Kept p.registers (p.step bus).processor.registers) ∧
      ∀ (shadow : Bank) (actions : List Action), p.SparesShadow bus actions →
        (∀ action ∈ actions, action.LeavesShadow) →
          (p.withShadow shadow).drive bus actions =
            (p.drive bus actions).map fun s => s.withShadow shadow) ∧
    ∀ (m : Machine) (shadow : Bank) (actions : List Command),
      m.Throughout Machine.SparesShadow actions →
        (m.withShadow shadow).reports actions = m.reports actions ∧
        (∃ shadow', (m.withShadow shadow).performAll actions =
          (m.performAll actions).withShadow shadow') ∧
        ((∀ action ∈ actions, action.LeavesShadow) →
          (m.performAll actions).processor.registers.shadow = m.processor.registers.shadow ∧
          (m.withShadow shadow).performAll actions =
            (m.performAll actions).withShadow shadow) := by
  refine ⟨fun p bus => ⟨fun part h => p.kept_step h, fun shadow actions hspares hleaves => ?_⟩,
    fun m shadow actions hspares => ?_⟩
  · exact Processor.drive_withShadow hleaves hspares shadow
  obtain ⟨hreports, hsome⟩ := Machine.performAll_withShadow shadow hspares
  refine ⟨hreports, hsome, fun hleaves => ⟨?_, ?_⟩⟩
  -- A machine is itself with its own shadow bank.
  · have hown : m.performAll actions =
        (m.performAll actions).withShadow m.processor.registers.shadow :=
      Machine.performAll_withShadow_of_leaves _ hspares hleaves
    rw [hown]
    rfl
  · exact Machine.performAll_withShadow_of_leaves shadow hspares hleaves

/-- Counting an index register up behind its prefix keeps the flags, the other index register and the
shadow bank, whatever is there. -/
theorem register_frame_increment :
    let board : Board := { memory := (Memory.zero.write 0 0xDD).write 1 0x23 }
    let p : Processor := {}
    let m : Machine := { processor := p, board }
    let shadow : Bank := { Bank.clear with a := 0x12 }
    p.mayChange board (.index .ix) = true ∧
    p.mayChange board (.index .iy) = false ∧ p.mayChange board .flags = false ∧
    (p.step board).processor.registers.iy = p.registers.iy ∧
    (p.step board).processor.registers.f = p.registers.f ∧
    p.SparesShadow board [.step, .nmi] ∧
    (p.withShadow shadow).drive board [.step, .nmi] =
      (p.drive board [.step, .nmi]).map (fun s => s.withShadow shadow) ∧
    m.Throughout Machine.SparesShadow [.step, .nmi] ∧
    (m.withShadow shadow).performAll [.step, .nmi] =
      (m.performAll [.step, .nmi]).withShadow shadow := by
  intro board p m shadow
  have hindex : p.mayChange board (.index .iy) = false := by decide +kernel
  have hflags : p.mayChange board .flags = false := by decide +kernel
  have hshadow : p.mayChange board .shadow = false := by decide +kernel
  have hdriven : p.SparesShadow board [.step, .nmi] := ⟨fun _ => hshadow, nofun, trivial⟩
  have hsteps : m.Throughout Machine.SparesShadow [.step, .nmi] :=
    .step hshadow <| .still rfl trivial
  obtain ⟨hprocessors, hmachines⟩ := register_frame
  obtain ⟨hkept, hdrive⟩ := hprocessors p board
  refine ⟨by decide +kernel, hindex, hflags, hkept (.index .iy) hindex, hkept .flags hflags, hdriven,
    hdrive shadow [.step, .nmi] hdriven ?_, hsteps, ((hmachines m shadow _ hsteps).2.2 ?_).2⟩
  · simp [Action.LeavesShadow]
  · simp [Command.LeavesShadow]

end Z80

import Z80.Proofs.Acceptance
import Z80.Proofs.Bookkeeping
import Z80.Proofs.Codec

/-!
# Resuming from a snapshot

A snapshot is the memory and the written form of the registers.  A machine that is made from it has
everything of the original that steers it, but for the interrupts that wait and the two latches that
hold interrupts off for one look.  If no interrupt waits, the latches are all that is missing, and
they matter only if an interrupt arrives before the next step: the original holds it off right behind
an instruction that enables interrupts or a prefix that stood alone, and the resumed machine accepts
it (`Machine.resume_held`).  In all other cases the two cannot be told apart
(`Machine.resume_continues`).

The proof has two halves.  A machine without its latches does what the machine does, if its first look
finds no interrupt that the latches hold off (`Machine.performAll_unlatched`).  And the resumed machine
is the machine without its latches and without its past, which is only written down.
-/

namespace Z80

/-! ## Written forms -/

/-- The image of a memory is read back. -/
lemma Memory.ofImage_toList (memory : Memory) : ofImage memory.toList = .ok memory := by
  have hlength : memory.toList.length = addressSpace := memory.size_eq
  rw [ofImage, dif_pos hlength]
  rfl

/-- The written form of a register file is read back. -/
lemma Registers.ofJson?_toJson (k : Registers) : ofJson? k.toJson = some k :=
  decode?_encode Codec.json_lawful k

/-! ## Snapshots -/

/-- The interrupts that wait, with nothing held off. -/
def Interrupts.unlatched (k : Interrupts) : Interrupts :=
  { k with deferred := false, held := false }

namespace Machine

/-- The machine that is made from an image of the memory and the written form of the registers, with
the given configuration and answers of ports. -/
def resume? (image : List UInt8) (registers : Json) (config : Config) (inputs : UInt16 → UInt8) :
    Option Machine :=
  match ofImage image config, Registers.ofJson? registers with
  | .ok m, some k => some ({ m with board := { m.board with inputs } }.perform (.restore k))
  | _, _ => none

/-- The machine that is made from a snapshot of a machine. -/
def resumed? (m : Machine) : Option Machine :=
  resume? m.board.memory.toList m.processor.registers.toJson m.processor.config m.board.inputs

/-- The machine with no interrupt held off. -/
def unlatched (m : Machine) : Machine :=
  m.onProcessor fun p => { p with interrupts := p.interrupts.unlatched }

/-- A snapshot can always be read, and has everything but interrupts, T-states and port writes. -/
lemma resumed?_eq (m : Machine) :
    m.resumed? = some
      { processor := { registers := m.processor.registers, config := m.processor.config }
        board := { memory := m.board.memory, inputs := m.board.inputs } } := by
  rw [resumed?, resume?, ofImage, Memory.ofImage_toList, Registers.ofJson?_toJson]
  rfl

/-- If no interrupt waits, the machine without its latches is the resumed one with a past. -/
lemma hasPast_resumed {m m' : Machine} (hrequest : m.interrupts.request = none)
    (hnmi : m.interrupts.nmi = false) (hresumed : m.resumed? = some m') :
    HasPast m.portWrites m' m.unlatched := by
  rw [resumed?_eq] at hresumed
  obtain rfl := Option.some.inj hresumed
  have hidle : m.processor.interrupts.unlatched = .idle := by
    rw [Interrupts.unlatched, show m.processor.interrupts.request = none from hrequest,
      show m.processor.interrupts.nmi = false from hnmi]
    rfl
  refine ⟨m.processor.ticks, ?_⟩
  rw [unlatched, onProcessor, hidle, withPast, Board.withPast, Array.append_empty]
  rfl

end Machine

/-! ## Machines without their latches -/

/-- The latches hold the interrupt off. -/
def Interrupts.HoldsOff (k : Interrupts) (i : Interrupt) : Prop :=
  k.held = true ∨ k.deferred = true ∧ ∃ data, i = .maskable data

/-- A look finds the same without the latches if they do not hold off what it finds then. -/
lemma Interrupts.poll_unlatched (k : Interrupts) (enabled : Bool)
    (h : ∀ i, (k.unlatched.poll enabled).1 = some i → ¬ k.HoldsOff i) :
    k.unlatched.poll enabled = k.poll enabled := by
  rcases k with ⟨_ | data, _ | _, _ | _, _ | _⟩ <;> cases enabled <;>
    simp [poll, unlatched, HoldsOff] at h ⊢

/-- Whether a command begins with a step. -/
def Command.takesStep : Command → Bool
  | .step => true
  | .run budget => decide (0 < budget)
  | _ => false

namespace Machine

/-- The interrupt that the first step of a sequence of commands accepts, if there is one. -/
def firstAccepted? (m : Machine) : List Command → Option Interrupt
  | [] => none
  | action :: actions =>
    if action.takesStep = true then m.accepted? else (m.perform action).firstAccepted? actions

variable {m : Machine}

/-- A step from the machine without its latches is the step from the machine, if the latches do not
hold off what is accepted without them. -/
lemma step_unlatched (h : ∀ i, m.unlatched.accepted? = some i → ¬ m.interrupts.HoldsOff i) :
    m.unlatched.step = m.step := by
  have hpoll : m.processor.interrupts.unlatched.poll m.processor.registers.iff1 =
      m.processor.interrupts.poll m.processor.registers.iff1 := by
    refine Interrupts.poll_unlatched _ _ fun i hi => h i ?_
    rw [accepted?_eq]
    exact hi
  show Processor.step _ m.board = m.processor.step m.board
  simp only [Processor.step, unlatched, onProcessor, hpoll]

/-- A run that takes a step depends on that step only. -/
lemma run_eq_of_step_eq {m m' : Machine} (hstep : m'.step = m.step) {budget : Nat}
    (h : 0 < budget) : m'.run budget = m.run budget := by
  unfold run
  conv_lhs => rw [runFrom, if_pos h, hstep]
  conv_rhs => rw [runFrom, if_pos h]

/-- A command that begins with a step from the machine without its latches does what it does to the
machine, under the same condition. -/
lemma perform_unlatched_of_takesStep {action : Command} (haction : action.takesStep = true)
    (h : ∀ i, m.unlatched.accepted? = some i → ¬ m.interrupts.HoldsOff i) :
    m.unlatched.report action = m.report action ∧
      m.unlatched.perform action = m.perform action := by
  have hstep := step_unlatched h
  cases action with
  | step =>
    rw [perform, perform, next, next, report, report, hstep]
    exact ⟨rfl, rfl⟩
  | run budget =>
    have hbudget : 0 < budget := of_decide_eq_true haction
    rw [perform, perform, report, report, run_eq_of_step_eq hstep hbudget]
    exact ⟨rfl, rfl⟩
  | _ => cases haction

/-- A command that takes no step reports nothing, keeps the latches or clears them, and does the same
to the machine without them. -/
lemma perform_unlatched_of_not_takesStep {action : Command} (haction : action.takesStep = false) :
    m.unlatched.report action = m.report action ∧
    (m.perform action).unlatched = m.unlatched.perform action ∧
    ∀ i, (m.perform action).interrupts.HoldsOff i → m.interrupts.HoldsOff i := by
  cases action with
  | step => cases haction
  | run budget =>
    have hbudget : budget = 0 := Nat.eq_zero_of_not_pos (of_decide_eq_false haction)
    have hrun : ∀ m : Machine, m.run 0 = m.idle := by
      intro m
      rw [run, runFrom, if_neg (Nat.lt_irrefl 0)]
      rfl
    rw [hbudget, report, report, perform, perform, hrun, hrun]
    exact ⟨rfl, rfl, fun i hi => hi⟩
  | reset => exact ⟨rfl, rfl, fun i hi => by rcases hi with hi | ⟨hi, -⟩ <;> cases hi⟩
  | writeBlock start block =>
    obtain ⟨memory, hperform⟩ := exists_perform_writeBlock m.board.memory start block
    rw [hperform m rfl, hperform m.unlatched rfl]
    exact ⟨rfl, rfl, fun i hi => hi⟩
  | _ => exact ⟨rfl, rfl, fun i hi => hi⟩

/-- Commands report the same for the machine without its latches, and end in the same machine up to
its latches, if the first step finds no interrupt that the latches hold off. -/
lemma performAll_unlatched (actions : List Command)
    (h : ∀ i, m.unlatched.firstAccepted? actions = some i → ¬ m.interrupts.HoldsOff i) :
    m.unlatched.reports actions = m.reports actions ∧
      (m.unlatched.performAll actions).unlatched = (m.performAll actions).unlatched := by
  induction actions generalizing m with
  | nil => exact ⟨rfl, rfl⟩
  | cons action actions ih =>
    rw [firstAccepted?] at h
    rw [reports, reports, performAll_cons, performAll_cons]
    cases haction : action.takesStep with
    | true =>
      rw [if_pos haction] at h
      -- Both machines are the same from here on.
      obtain ⟨hreport, hperform⟩ := perform_unlatched_of_takesStep haction h
      rw [hreport, hperform]
      exact ⟨rfl, rfl⟩
    | false =>
      rw [if_neg (by rw [haction]; exact Bool.false_ne_true)] at h
      obtain ⟨hreport, hperform, hlatches⟩ := perform_unlatched_of_not_takesStep (m := m) haction
      rw [← hperform] at h
      obtain ⟨hreports, hend⟩ := ih fun i hi hholds => h i hi (hlatches i hholds)
      rw [← hperform, hreport, hreports]
      exact ⟨rfl, hend⟩

/-- A past does not change what the first step accepts. -/
lemma firstAccepted?_of_hasPast {m m' : Machine} {past : Array (UInt16 × UInt8)}
    (h : HasPast past m m') {actions : List Command}
    (hkeeps : ∀ action ∈ actions, action ≠ .drainPortWrites) :
    m'.firstAccepted? actions = m.firstAccepted? actions := by
  induction actions generalizing m m' with
  | nil => rfl
  | cons action actions ih =>
    rw [List.forall_mem_cons] at hkeeps
    rw [firstAccepted?, firstAccepted?]
    have hafter : HasPast past (m.perform action) (m'.perform action) :=
      ((lockstep_withPast past).perform_of_allowed h hkeeps.1 fun _ _ => trivial).2
    have hlook : m'.accepted? = m.accepted? := by
      obtain ⟨ticks, rfl⟩ := h
      rw [accepted?_eq, accepted?_eq]
      rfl
    rw [ih hafter hkeeps.2, hlook]

end Machine

/-! ## Resumed machines -/

/-- By its history, a machine holds the interrupt off: the latest step since the last reset executed
a prefix that stood alone or, if the interrupt is maskable, an instruction that enables interrupts. -/
def HeldOff (history : List Occurrence) (i : Interrupt) : Prop :=
  JustExecuted history IsLonePrefix ∨
    JustExecuted history IsEnable ∧ ∃ data, i = .maskable data

/-- From power-on on any board, whatever commands are given, the latches say what the history
says. -/
lemma Trace.faithful_performAll (config : Config) (board : Board) (actions : List Command) :
    ((Trace.start config board).performAll actions).Faithful :=
  performAll_induction (fun _ h => h.step) (fun _ action _ haction h => h.perform action haction)
    (faithful_start config board)

/-- **Resuming from a snapshot.**  From power-on on any board, whatever commands have been given, a
machine for which no interrupt waits can be resumed from its snapshot.  Under commands that do not
empty the record of port writes, the resumed machine reports the same T-states and has the same
registers, the same memory and the same port writes since then, unless its first step accepts an
interrupt that the original holds off. -/
theorem Machine.resume_continues (config : Config) (board : Board) (before : List Command) :
    let t := (Trace.start config board).performAll before
    t.machine.interrupts.request = none → t.machine.interrupts.nmi = false →
      ∃ m, t.machine.resumed? = some m ∧ ∀ actions : List Command,
        (∀ action ∈ actions, action ≠ .drainPortWrites) →
        (∀ i, m.firstAccepted? actions = some i → ¬ HeldOff t.history i) →
          t.machine.reports actions = m.reports actions ∧
          (t.machine.performAll actions).processor.registers =
            (m.performAll actions).processor.registers ∧
          (t.machine.performAll actions).board.memory = (m.performAll actions).board.memory ∧
          (t.machine.performAll actions).portWrites =
            t.machine.portWrites ++ (m.performAll actions).portWrites := by
  intro t hrequest hnmi
  have hfaithful : t.Faithful := Trace.faithful_performAll config board before
  refine ⟨_, t.machine.resumed?_eq, fun actions hkeeps hfirst => ?_⟩
  have hpast := hasPast_resumed hrequest hnmi t.machine.resumed?_eq
  -- What the latches hold off is what the history says, so they do not matter for these commands.
  have hlatches : ∀ i, t.machine.unlatched.firstAccepted? actions = some i →
      ¬ t.machine.interrupts.HoldsOff i := by
    intro i hi hholds
    rw [firstAccepted?_of_hasPast hpast hkeeps] at hi
    refine hfirst i hi ?_
    rwa [HeldOff, ← hfaithful.held, ← hfaithful.deferred]
  obtain ⟨hreports, hend⟩ := performAll_unlatched actions hlatches
  obtain ⟨hreportsPast, ticks, hendPast⟩ := (lockstep_withPast _).performAll hpast hkeeps
    (throughout_true _ actions)
  rw [hendPast] at hend
  refine ⟨hreports.symm.trans hreportsPast, ?_, ?_, ?_⟩
  · exact (congrArg (fun m => m.processor.registers) hend).symm
  · exact (congrArg (fun m => m.board.memory) hend).symm
  · exact (congrArg (fun m => m.board.writes) hend).symm

/-- After an instruction that enables interrupts, a step is taken by the original and the resumed
machine before a maskable interrupt is requested; the next step of both accepts it. -/
theorem Machine.resume_continues_enable :
    let board : Board := { memory := Memory.zero.write 0 0xFB }
    let t := (Trace.start {} board).performAll [.step]
    let actions : List Command := [.step, .interrupt 0xFF, .step]
    t.machine.interrupts.request = none ∧ t.machine.interrupts.nmi = false ∧
      ∃ m, t.machine.resumed? = some m ∧ m.firstAccepted? actions = none ∧
        m.reports actions = [4, 0, 13] ∧ t.machine.reports actions = m.reports actions := by
  intro board t actions
  have hrequest : t.machine.interrupts.request = none := by decide +kernel
  have hnmi : t.machine.interrupts.nmi = false := by decide +kernel
  obtain ⟨m, hresumed, hcontinues⟩ := resume_continues {} board [.step] hrequest hnmi
  have hkeeps : ∀ action ∈ actions, action ≠ .drainPortWrites := by
    simp [actions]
  have hm : m = _ := Option.some.inj (hresumed.symm.trans t.machine.resumed?_eq)
  have hfirst : m.firstAccepted? actions = none := by
    rw [hm]
    decide +kernel
  refine ⟨hrequest, hnmi, m, hresumed, hfirst, ?_, ?_⟩
  · rw [hm]
    decide +kernel
  · refine (hcontinues actions hkeeps fun i hi => ?_).1
    rw [hfirst] at hi
    cases hi

/-- Right behind an instruction that enables interrupts a maskable interrupt, and right behind a
prefix that stood alone any interrupt, is held off by the original and accepted by the resumed
machine. -/
theorem Machine.resume_held :
    (let board : Board := { memory := Memory.zero.write 0 0xFB }
      let m := ((Trace.start {} board).performAll [.step]).machine
      let actions : List Command := [.interrupt 0xFF, .step]
      m.interrupts.request = none ∧ m.interrupts.nmi = false ∧ m.reports actions = [0, 4] ∧
        ∃ resumed, m.resumed? = some resumed ∧ resumed.reports actions = [0, 13]) ∧
    (let board : Board := { memory := (Memory.zero.write 0 0xDD).write 1 0xDD }
      let m := ((Trace.start {} board).performAll [.step]).machine
      let actions : List Command := [.nmi, .step]
      m.interrupts.request = none ∧ m.interrupts.nmi = false ∧ m.reports actions = [0, 8] ∧
        ∃ resumed, m.resumed? = some resumed ∧ resumed.reports actions = [0, 11]) := by
  refine ⟨⟨?_, ?_, ?_, _, resumed?_eq _, ?_⟩, ⟨?_, ?_, ?_, _, resumed?_eq _, ?_⟩⟩
  all_goals decide +kernel

end Z80

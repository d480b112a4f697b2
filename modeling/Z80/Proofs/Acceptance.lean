import Z80.Proofs.Command
import Z80.Proofs.Encoding

/-!
# When interrupts are accepted

Which interrupt a step accepts is decided by the latches of the interrupt system, and the latches
can be seen from outside only in part.  This file states the decision without them, from the history
of the machine: which requests have been made and not been accepted, withdrawn or reset since, and
what the step before did (`AcceptanceLaw`).  The law holds for every step of every machine that has
been given any commands (`acceptanceLaw_performAll`).

The invariant behind it is `Trace.Faithful`: each latch says what the history says.
-/

namespace Z80

/-! ## The look for an interrupt -/

namespace Interrupts

variable (k : Interrupts) (enabled : Bool)

/-- A look finds the non-maskable interrupt if that waits and nothing is held off. -/
lemma poll_eq_nonMaskable :
    (k.poll enabled).1 = some .nonMaskable ↔ k.nmi = true ∧ ¬ k.held = true := by
  rcases k with ⟨_ | data, _ | _, _ | _, _ | _⟩ <;> cases enabled <;> simp [poll]

/-- A look finds the maskable request if nothing comes before it and it is let in. -/
lemma poll_eq_maskable (data : UInt8) :
    (k.poll enabled).1 = some (.maskable data) ↔
      (k.poll enabled).1 ≠ some .nonMaskable ∧ enabled = true ∧ k.request = some data ∧
        ¬ k.deferred = true ∧ ¬ k.held = true := by
  rcases k with ⟨_ | data, _ | _, _ | _, _ | _⟩ <;> cases enabled <;> simp [poll]

/-- The non-maskable interrupt waits until a look finds it. -/
lemma nmi_poll :
    (k.poll enabled).2.nmi = true ↔
      k.nmi = true ∧ (k.poll enabled).1 ≠ some .nonMaskable := by
  rcases k with ⟨_ | data, _ | _, _ | _, _ | _⟩ <;> cases enabled <;> simp [poll]

/-- The maskable request waits until a look finds it. -/
lemma request_poll (data : UInt8) :
    (k.poll enabled).2.request = some data ↔
      k.request = some data ∧ ∀ found, (k.poll enabled).1 ≠ some (.maskable found) := by
  rcases k with ⟨_ | data, _ | _, _ | _, _ | _⟩ <;> cases enabled <;> simp [poll]

end Interrupts

namespace Operation

variable (op : Operation) (k : Interrupts)

@[simp] lemma nmi_latchInterrupts : (op.latchInterrupts k).nmi = k.nmi := by
  cases op <;> rfl

@[simp] lemma request_latchInterrupts : (op.latchInterrupts k).request = k.request := by
  cases op <;> rfl

/-- Only enabling interrupts defers maskable ones. -/
lemma deferred_latchInterrupts (h : k.deferred = false) :
    (op.latchInterrupts k).deferred = true ↔ op = .enableInterrupts := by
  cases op <;> simp [latchInterrupts, Interrupts.defer, Interrupts.hold, h]

/-- Only a prefix that stands alone holds everything off. -/
lemma held_latchInterrupts (h : k.held = false) :
    (op.latchInterrupts k).held = true ↔ op = .prefixByte := by
  cases op <;> simp [latchInterrupts, Interrupts.defer, Interrupts.hold, h]

end Operation

/-! ## What a step does, seen from outside -/

/-- The interrupt that a step reports as accepted, if there is one. -/
def Step.accepted? {β : Type} (s : Step β) : Option Interrupt :=
  match s.event with
  | some (.accepted interrupt _ _ _) => some interrupt
  | _ => none

namespace Processor

variable {β : Type} [Bus β] (p : Processor) (bus : β)

/-- A step reports just the interrupt that it accepts. -/
lemma accepted?_step : (p.step bus).accepted? = p.accepts? := by
  unfold Step.accepted?
  rcases p.step_cases bus with ⟨i, haccepts, h⟩ | ⟨haccepts, -, h⟩ | ⟨hready, h⟩
  · rw [h, haccepts]
    rfl
  · rw [h, haccepts]
    rfl
  · rw [h, hready.accepts]
    simp only [execute, Instruction.event?]
    cases (decodeAt bus p.registers.pc).operation <;> rfl

/-- After a step the latches are as the look left them, unless an instruction was executed that sets
one. -/
lemma interrupts_step :
    (p.Ready ∧ (p.step bus).processor.interrupts =
      (decodeAt bus p.registers.pc).operation.latchInterrupts p.looked.interrupts) ∨
    (¬ p.Ready ∧ (p.step bus).processor.interrupts = p.looked.interrupts) := by
  rcases p.step_cases bus with ⟨i, haccepts, h⟩ | ⟨-, hhalted, h⟩ | ⟨hready, h⟩
  · exact Or.inr ⟨not_ready_of_accepts haccepts, by rw [h]; rfl⟩
  · exact Or.inr ⟨not_ready_of_halted hhalted, by rw [h]; rfl⟩
  · exact Or.inl ⟨hready, by rw [h]; rfl⟩

/-- After a step the non-maskable interrupt waits if it waited before and was not accepted. -/
lemma nmi_step :
    (p.step bus).processor.interrupts.nmi = true ↔
      p.interrupts.nmi = true ∧ (p.step bus).accepted? ≠ some .nonMaskable := by
  rw [p.accepted?_step bus]
  rcases p.interrupts_step bus with ⟨-, h⟩ | ⟨-, h⟩
  · rw [h, Operation.nmi_latchInterrupts]
    exact Interrupts.nmi_poll _ _
  · rw [h]
    exact Interrupts.nmi_poll _ _

/-- After a step a request waits if it waited before and no maskable interrupt was accepted. -/
lemma request_step (data : UInt8) :
    (p.step bus).processor.interrupts.request = some data ↔
      p.interrupts.request = some data ∧
        ∀ found, (p.step bus).accepted? ≠ some (.maskable found) := by
  rw [p.accepted?_step bus]
  rcases p.interrupts_step bus with ⟨-, h⟩ | ⟨-, h⟩
  · rw [h, Operation.request_latchInterrupts]
    exact Interrupts.request_poll _ _ _
  · rw [h]
    exact Interrupts.request_poll _ _ _

end Processor

namespace Machine

/-- The interrupt that the step from this machine reports as accepted, if there is one. -/
def accepted? (m : Machine) : Option Interrupt :=
  m.step.accepted?

/-- The step from this machine executes an instruction whose first two bytes are as required. -/
def Executes (m : Machine) (required : UInt8 → UInt8 → Prop) : Prop :=
  m.accepted? = none ∧ m.processor.registers.halted = false ∧
    required (m.read m.processor.registers.pc) (m.read (m.processor.registers.pc + 1))

/-- The interrupts that wait, and the latches. -/
def interrupts (m : Machine) : Interrupts :=
  m.processor.interrupts

/-- A step reports just the interrupt that it accepts. -/
lemma accepted?_eq (m : Machine) : m.accepted? = m.processor.accepts? :=
  m.processor.accepted?_step m.board

/-- After a step the latches are as the look left them, unless an instruction was executed that sets
one. -/
lemma interrupts_next (m : Machine) :
    (m.processor.Ready ∧ m.next.interrupts =
      (decodeAt m.board m.processor.registers.pc).operation.latchInterrupts
        m.processor.looked.interrupts) ∨
    (¬ m.processor.Ready ∧ m.next.interrupts = m.processor.looked.interrupts) :=
  m.processor.interrupts_step m.board

/-- After a step the non-maskable interrupt waits if it waited before and was not accepted. -/
lemma nmi_next (m : Machine) :
    m.next.interrupts.nmi = true ↔
      m.interrupts.nmi = true ∧ m.accepted? ≠ some .nonMaskable :=
  m.processor.nmi_step m.board

/-- After a step a request waits if it waited before and no maskable interrupt was accepted. -/
lemma request_next (m : Machine) (data : UInt8) :
    m.next.interrupts.request = some data ↔
      m.interrupts.request = some data ∧ ∀ found, m.accepted? ≠ some (.maskable found) :=
  m.processor.request_step m.board data

/-- A step executes an instruction if the processor is ready. -/
lemma executes_iff (m : Machine) (required : UInt8 → UInt8 → Prop) :
    m.Executes required ↔ m.processor.Ready ∧
      required (MemoryBus.codeAt m.board m.processor.registers.pc 0)
        (MemoryBus.codeAt m.board m.processor.registers.pc 1) := by
  have hfirst : MemoryBus.codeAt m.board m.processor.registers.pc 0 =
      m.read m.processor.registers.pc := codeAt_zero m.board _
  have hsecond : MemoryBus.codeAt m.board m.processor.registers.pc 1 =
      m.read (m.processor.registers.pc + 1) := rfl
  rw [Executes, accepted?_eq, hfirst, hsecond]
  constructor
  · rintro ⟨haccepts, hhalted, hrequired⟩
    exact ⟨⟨haccepts, hhalted⟩, hrequired⟩
  · rintro ⟨hready, hrequired⟩
    exact ⟨hready.accepts, hready.halted, hrequired⟩

/-- After a step maskable interrupts are deferred if the step enabled them. -/
lemma deferred_next (m : Machine) :
    m.next.interrupts.deferred = true ↔ m.Executes IsEnable := by
  have hlooked : m.processor.looked.interrupts.deferred = false := Interrupts.deferred_poll _ _
  rw [executes_iff, ← (encoding_decode _).holdsOff_iff.1]
  rcases m.interrupts_next with ⟨hready, h⟩ | ⟨hready, h⟩
  · rw [h, Operation.deferred_latchInterrupts _ _ hlooked]
    exact (and_iff_right hready).symm
  · rw [h, hlooked]
    exact ⟨nofun, fun hexecutes => absurd hexecutes.1 hready⟩

/-- After a step everything is held off if the step executed a prefix that stands alone. -/
lemma held_next (m : Machine) :
    m.next.interrupts.held = true ↔ m.Executes IsLonePrefix := by
  have hlooked : m.processor.looked.interrupts.held = false := Interrupts.held_poll _ _
  rw [executes_iff, ← (encoding_decode _).holdsOff_iff.2]
  rcases m.interrupts_next with ⟨hready, h⟩ | ⟨hready, h⟩
  · rw [h, Operation.held_latchInterrupts _ _ hlooked]
    exact (and_iff_right hready).symm
  · rw [h, hlooked]
    exact ⟨nofun, fun hexecutes => absurd hexecutes.1 hready⟩

end Machine

/-! ## What the history says -/

/-- An occurrence that makes something due came after the last one that settles it; the history is
given the latest first. -/
def DueSince {α : Type} (makes settles : α → Prop) (history : List α) : Prop :=
  ∃ recent o old, history = recent ++ o :: old ∧ makes o ∧ ∀ later ∈ recent, ¬ settles later

/-- Nothing is due at the beginning. -/
@[simp] lemma not_dueSince_nil {α : Type} (makes settles : α → Prop) :
    ¬ DueSince makes settles [] := by
  rintro ⟨recent, o, old, h, -⟩
  simp at h

/-- One more occurrence makes something due, or leaves it due unless it settles it. -/
lemma dueSince_cons {α : Type} (makes settles : α → Prop) (o : α) (history : List α) :
    DueSince makes settles (o :: history) ↔
      makes o ∨ ¬ settles o ∧ DueSince makes settles history := by
  constructor
  · rintro ⟨recent, q, old, h, hmakes, hrecent⟩
    cases recent with
    | nil =>
      obtain ⟨rfl, rfl⟩ := List.cons.inj h
      exact Or.inl hmakes
    | cons later recent =>
      obtain ⟨rfl, rfl⟩ := List.cons.inj h
      exact Or.inr ⟨hrecent o List.mem_cons_self, recent, q, old, rfl, hmakes,
        fun later hlater => hrecent later (List.mem_cons_of_mem o hlater)⟩
  · rintro (hmakes | ⟨hsettles, recent, q, old, rfl, hmakes, hrecent⟩)
    · exact ⟨[], o, history, rfl, hmakes, by simp⟩
    · refine ⟨o :: recent, q, old, rfl, hmakes, fun later hlater => ?_⟩
      rcases List.mem_cons.1 hlater with rfl | hlater
      · exact hsettles
      · exact hrecent later hlater

namespace Occurrence

/-- The occurrence is a step that accepts the interrupt. -/
def Accepts (o : Occurrence) (interrupt : Interrupt) : Prop :=
  match o with
  | .stepped m => m.accepted? = some interrupt
  | _ => False

end Occurrence

/-- A non-maskable interrupt has been requested since the last one was accepted and since the last
reset. -/
def NmiDue (history : List Occurrence) : Prop :=
  DueSince (fun o => o = .nmi) (fun o => o.Accepts .nonMaskable ∨ o = .reset) history

/-- The byte is that of the latest request, and since then no maskable interrupt has been accepted,
the request has not been withdrawn, and there was no reset. -/
def RequestDue (history : List Occurrence) (data : UInt8) : Prop :=
  DueSince (fun o => o = .requested data)
    (fun o => (∃ found, o.Accepts (.maskable found)) ∨ (∃ other, o = .requested other) ∨
      o = .withdrawn ∨ o = .reset) history

/-- One more occurrence requests the non-maskable interrupt, or leaves it due. -/
lemma nmiDue_cons (o : Occurrence) (history : List Occurrence) :
    NmiDue (o :: history) ↔
      o = .nmi ∨ ¬ (o.Accepts .nonMaskable ∨ o = .reset) ∧ NmiDue history :=
  dueSince_cons _ _ o history

/-- One more occurrence makes the request, or leaves it due. -/
lemma requestDue_cons (o : Occurrence) (history : List Occurrence) (data : UInt8) :
    RequestDue (o :: history) data ↔
      o = .requested data ∨
        ¬ ((∃ found, o.Accepts (.maskable found)) ∨ (∃ other, o = .requested other) ∨
          o = .withdrawn ∨ o = .reset) ∧ RequestDue history data :=
  dueSince_cons _ _ o history

/-- The machine before the latest step, if there was one since the last reset. -/
def lastStep? : List Occurrence → Option Machine
  | [] => none
  | .stepped m :: _ => some m
  | .reset :: _ => none
  | _ :: history => lastStep? history

/-- The latest step since the last reset executed an instruction whose first two bytes are as
required. -/
def JustExecuted (history : List Occurrence) (required : UInt8 → UInt8 → Prop) : Prop :=
  ∃ m, lastStep? history = some m ∧ m.Executes required

/-! ## The latches and the history -/

/-- Every latch of the machine says what the history says. -/
structure Trace.Faithful (t : Trace) : Prop where
  /-- The non-maskable interrupt waits if it is due. -/
  nmi : t.machine.interrupts.nmi = true ↔ NmiDue t.history
  /-- The request that waits is the one that is due. -/
  request : ∀ data, t.machine.interrupts.request = some data ↔ RequestDue t.history data
  /-- Maskable interrupts are deferred if the latest step enabled them. -/
  deferred : t.machine.interrupts.deferred = true ↔ JustExecuted t.history IsEnable
  /-- Everything is held off if the latest step executed a prefix that stands alone. -/
  held : t.machine.interrupts.held = true ↔ JustExecuted t.history IsLonePrefix

/-- At the beginning nothing waits and nothing is due. -/
lemma Trace.faithful_start (config : Config) (board : Board) : (start config board).Faithful where
  nmi := by simp [start, NmiDue, Machine.interrupts, Interrupts.idle]
  request data := by simp [start, RequestDue, Machine.interrupts, Interrupts.idle]
  deferred := by simp [start, JustExecuted, lastStep?, Machine.interrupts, Interrupts.idle]
  held := by simp [start, JustExecuted, lastStep?, Machine.interrupts, Interrupts.idle]

/-- A step keeps the latches in line with the history. -/
lemma Trace.Faithful.step {t : Trace} (h : t.Faithful) : t.step.Faithful where
  nmi := by
    show t.machine.next.interrupts.nmi = true ↔ NmiDue (.stepped t.machine :: t.history)
    rw [t.machine.nmi_next, h.nmi, nmiDue_cons]
    simp [Occurrence.Accepts, and_comm]
  request data := by
    show t.machine.next.interrupts.request = some data ↔
      RequestDue (.stepped t.machine :: t.history) data
    rw [t.machine.request_next, h.request, requestDue_cons]
    simp [Occurrence.Accepts, and_comm]
  deferred := by
    show t.machine.next.interrupts.deferred = true ↔ _
    rw [t.machine.deferred_next]
    simp [JustExecuted, Trace.step, lastStep?]
  held := by
    show t.machine.next.interrupts.held = true ↔ _
    rw [t.machine.held_next]
    simp [JustExecuted, Trace.step, lastStep?]

/-- A request keeps the latches in line with the history. -/
lemma Trace.Faithful.request_interrupt {t : Trace} (h : t.Faithful) (data : UInt8) :
    Faithful
      { machine := t.machine.onProcessor fun p => p.interrupt data
        history := .requested data :: t.history } := by
  refine ⟨?_, fun other => ?_, h.deferred, h.held⟩
  · show t.machine.interrupts.nmi = true ↔ NmiDue (.requested data :: t.history)
    rw [h.nmi, nmiDue_cons]
    simp [Occurrence.Accepts]
  · show some data = some other ↔ RequestDue (.requested data :: t.history) other
    rw [requestDue_cons]
    simp [Occurrence.Accepts]

/-- Every command that takes no step keeps the latches in line with the history. -/
lemma Trace.Faithful.perform {t : Trace} (h : t.Faithful) (action : Command)
    (haction : action.steps = false) : (t.perform action).Faithful := by
  cases action with
  | step => cases haction
  | run budget => cases haction
  | set | restore | write | setPortInput | drainPortWrites =>
    exact ⟨h.nmi, h.request, h.deferred, h.held⟩
  | writeBlock start block =>
    have hinterrupts : (t.perform (.writeBlock start block)).machine.interrupts =
        t.machine.interrupts :=
      congrArg Processor.interrupts (t.machine.processor_perform_writeBlock start block)
    refine ⟨?_, ?_, ?_, ?_⟩ <;> rw [hinterrupts]
    · exact h.nmi
    · exact h.request
    · exact h.deferred
    · exact h.held
  | interrupt data => exact h.request_interrupt data
  | requestInterrupt => exact h.request_interrupt t.machine.processor.config.interruptByte
  | clearInterrupt =>
    refine ⟨?_, fun data => ?_, h.deferred, h.held⟩
    · show t.machine.interrupts.nmi = true ↔ NmiDue (.withdrawn :: t.history)
      rw [h.nmi, nmiDue_cons]
      simp [Occurrence.Accepts]
    · show none = some data ↔ RequestDue (.withdrawn :: t.history) data
      rw [requestDue_cons]
      simp
  | nmi =>
    refine ⟨?_, fun data => ?_, h.deferred, h.held⟩
    · show true = true ↔ NmiDue (.nmi :: t.history)
      rw [nmiDue_cons]
      simp
    · show t.machine.interrupts.request = some data ↔ RequestDue (.nmi :: t.history) data
      rw [h.request, requestDue_cons]
      simp [Occurrence.Accepts]
  | reset =>
    refine ⟨?_, fun data => ?_, ?_, ?_⟩
    · show false = true ↔ NmiDue (.reset :: t.history)
      rw [nmiDue_cons]
      simp
    · show none = some data ↔ RequestDue (.reset :: t.history) data
      rw [requestDue_cons]
      simp
    · show false = true ↔ JustExecuted (.reset :: t.history) IsEnable
      simp [JustExecuted, lastStep?]
    · show false = true ↔ JustExecuted (.reset :: t.history) IsLonePrefix
      simp [JustExecuted, lastStep?]

/-! ## The law -/

/-- What the step from a machine with a given history accepts, and what waits before and after
it. -/
structure AcceptanceLaw (m : Machine) (history : List Occurrence) : Prop where
  /-- A non-maskable interrupt is accepted if it is due, but not right behind a prefix that stood
  alone. -/
  nmi : m.accepted? = some .nonMaskable ↔ NmiDue history ∧ ¬ JustExecuted history IsLonePrefix
  /-- Otherwise a maskable interrupt is accepted if it is let in and due, with the byte of the
  latest request, but not right behind an instruction that enables interrupts or a prefix that
  stood alone. -/
  maskable : ∀ data, m.accepted? = some (.maskable data) ↔
    m.accepted? ≠ some .nonMaskable ∧ m.processor.registers.iff1 = true ∧
      RequestDue history data ∧ ¬ JustExecuted history IsEnable ∧
        ¬ JustExecuted history IsLonePrefix
  /-- What waits before the step is what is due. -/
  waits : (m.interrupts.nmi = true ↔ NmiDue history) ∧
    ∀ data, m.interrupts.request = some data ↔ RequestDue history data
  /-- A step that accepts nothing leaves what waits. -/
  nothing : m.accepted? = none →
    m.next.interrupts.nmi = m.interrupts.nmi ∧
      m.next.interrupts.request = m.interrupts.request
  /-- A non-maskable interrupt that is accepted is no longer waiting, and the request stays. -/
  nmiTaken : m.accepted? = some .nonMaskable →
    m.next.interrupts.nmi = false ∧ m.next.interrupts.request = m.interrupts.request
  /-- A request that is accepted is no longer waiting; no non-maskable interrupt was. -/
  maskableTaken : ∀ data, m.accepted? = some (.maskable data) →
    m.next.interrupts.request = none ∧ m.next.interrupts.nmi = m.interrupts.nmi
  /-- However often interrupts are enabled in a row, no maskable one is accepted in between or right
  behind. -/
  enabling : JustExecuted history IsEnable → ∀ data, m.accepted? ≠ some (.maskable data)
  /-- Behind any other step, such as the instruction after one that enables interrupts, a request
  that is due is accepted if it is let in and no non-maskable interrupt comes first. -/
  afterEnabling : ∀ before data, lastStep? history = some before →
    ¬ before.Executes IsEnable → ¬ before.Executes IsLonePrefix → ¬ NmiDue history →
      m.processor.registers.iff1 = true → RequestDue history data →
        m.accepted? = some (.maskable data)

/-- The law follows from what the latches say. -/
lemma Trace.Faithful.acceptanceLaw {m : Machine} {history : List Occurrence}
    (h : Trace.Faithful { machine := m, history }) : AcceptanceLaw m history := by
  have hnmi : m.accepted? = some .nonMaskable ↔
      NmiDue history ∧ ¬ JustExecuted history IsLonePrefix := by
    rw [m.accepted?_eq, ← h.nmi, ← h.held]
    exact Interrupts.poll_eq_nonMaskable _ _
  have hmaskable : ∀ data, m.accepted? = some (.maskable data) ↔
      m.accepted? ≠ some .nonMaskable ∧ m.processor.registers.iff1 = true ∧
        RequestDue history data ∧ ¬ JustExecuted history IsEnable ∧
          ¬ JustExecuted history IsLonePrefix := by
    intro data
    rw [m.accepted?_eq, ← h.request, ← h.deferred, ← h.held]
    exact Interrupts.poll_eq_maskable _ _ data
  have hjust : ∀ {before required}, lastStep? history = some before →
      JustExecuted history required → before.Executes required := by
    rintro before required hlast ⟨m', hlast', hexecutes⟩
    rw [hlast] at hlast'
    cases hlast'
    exact hexecutes
  refine ⟨hnmi, hmaskable, ⟨h.nmi, h.request⟩, fun hnone => ⟨?_, ?_⟩, fun htaken => ⟨?_, ?_⟩,
    fun data htaken => ⟨?_, ?_⟩, ?_, ?_⟩
  · rw [Bool.eq_iff_iff, m.nmi_next]
    simp [hnone]
  · refine Option.ext fun data => ?_
    rw [m.request_next]
    simp [hnone]
  · rw [← Bool.not_eq_true, m.nmi_next]
    simp [htaken]
  · refine Option.ext fun data => ?_
    rw [m.request_next]
    simp [htaken]
  · refine Option.eq_none_iff_forall_ne_some.2 fun other => ?_
    rw [Ne, m.request_next]
    simp [htaken]
  · rw [Bool.eq_iff_iff, m.nmi_next]
    simp [htaken]
  · intro henabling data htaken
    exact ((hmaskable data).1 htaken).2.2.2.1 henabling
  · intro before data hlast henable hlone hdue hiff1 hrequest
    refine (hmaskable data).2 ⟨fun htaken => hdue (hnmi.1 htaken).1, hiff1, hrequest, ?_, ?_⟩
    · exact fun hjustEnabled => henable (hjust hlast hjustEnabled)
    · exact fun hjustLone => hlone (hjust hlast hjustLone)

/-- The latches have been in line with the history before every step of it. -/
def Trace.Lawful (t : Trace) : Prop :=
  t.Faithful ∧ ∀ recent m old, t.history = recent ++ .stepped m :: old →
    Trace.Faithful { machine := m, history := old }

/-- A step keeps the latches in line with the history, before it and after it. -/
lemma Trace.Lawful.step {t : Trace} (h : t.Lawful) : t.step.Lawful := by
  refine ⟨h.1.step, fun recent m old hhistory => ?_⟩
  cases recent with
  | nil =>
    obtain ⟨hm, rfl⟩ := List.cons.inj hhistory
    cases hm
    exact h.1
  | cons o recent => exact h.2 recent m old (List.cons.inj hhistory).2

/-- Every command that takes no step adds no step to the history. -/
lemma Trace.Lawful.perform {t : Trace} (h : t.Lawful) (action : Command)
    (haction : action.steps = false) : (t.perform action).Lawful := by
  refine ⟨h.1.perform action haction, fun recent m old hhistory => ?_⟩
  cases action with
  | step => cases haction
  | run budget => cases haction
  | interrupt | requestInterrupt | clearInterrupt | nmi | reset =>
    cases recent with
    | nil => cases hhistory
    | cons o recent => exact h.2 recent m old (List.cons.inj hhistory).2
  | _ => exact h.2 recent m old hhistory

/-- **The law of acceptance.**  From power-on on any board, whatever commands are given, every step
that was taken accepted what the law says, and so will the next one. -/
theorem acceptanceLaw_performAll (config : Config) (board : Board) (actions : List Command) :
    let t := (Trace.start config board).performAll actions
    AcceptanceLaw t.machine t.history ∧
      ∀ recent m old, t.history = recent ++ .stepped m :: old → AcceptanceLaw m old := by
  intro t
  have hstart : (Trace.start config board).Lawful :=
    ⟨Trace.faithful_start config board, fun recent m old h => by simp [Trace.start] at h⟩
  have ht : t.Lawful := by
    refine Trace.performAll_induction (fun _ h => h.step) ?_ hstart
    exact fun _ action _ haction h => h.perform action haction
  refine ⟨ht.1.acceptanceLaw, fun recent m old h => ?_⟩
  exact (ht.2 recent m old h).acceptanceLaw

end Z80

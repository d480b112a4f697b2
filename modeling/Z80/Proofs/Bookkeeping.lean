import Z80.Proofs.Lockstep

/-!
# What is only written down

The count of T-states and the record of port writes are written down and never looked at.  A machine
with a past, that is with earlier writes in the record and another count, does what the machine does
without it: a step is the step with the same past (`Machine.step_withPast`), and the two go in lockstep
under every command that does not empty the record (`Machine.lockstep_withPast`).
-/

namespace Z80

/-! ## Boards with a past -/

/-- The board with earlier port writes in its record. -/
def Board.withPast (board : Board) (past : Array (UInt16 × UInt8)) : Board :=
  { board with writes := past ++ board.writes }

namespace Board

variable (board : Board) (past : Array (UInt16 × UInt8))

/-- What is sent to a board with a past comes after it. -/
lemma run_withPast (s : Store) :
    s.run (board.withPast past) = (s.run board).withPast past := by
  cases s with
  | port number value => exact congrArg (Board.mk _ _) Array.push_append
  | _ => rfl

/-- What a plan reads does not depend on the past. -/
lemma outcome_withPast (p : Plan) : p.outcome (board.withPast past) = p.outcome board := by
  cases p <;> rfl

/-- Carrying out a plan leaves the past as it is. -/
lemma plan_run_withPast (p : Plan) :
    p.run (board.withPast past) = ((p.run board).1, (p.run board).2.withPast past) := by
  rw [Plan.run_eq, Plan.run_eq, outcome_withPast, run_withPast]

end Board

/-! ## Machines with a past -/

/-- The processor with another count of T-states. -/
def Processor.withTicks (p : Processor) (ticks : Ticks) : Processor :=
  { p with ticks }

namespace Processor

variable {β : Type} [Bus β]

/-- A step depends on the count of T-states in no other way than that it counts on. -/
lemma step_withTicks (p : Processor) (ticks : Ticks) (bus : β) :
    (p.withTicks ticks).step bus =
      { p.step bus with
        processor := (p.step bus).processor.withTicks (ticks + (p.step bus).duration) } := by
  obtain ⟨i, haccepts, hstep⟩ | ⟨haccepts, hhalted, hstep⟩ | ⟨hready, hstep⟩ := p.step_cases bus
  · have haccepts' : (p.withTicks ticks).accepts? = some i := haccepts
    rw [step_of_accepts haccepts', hstep]
    rfl
  · have haccepts' : (p.withTicks ticks).accepts? = none := haccepts
    rw [step_of_halted haccepts' hhalted, hstep]
    rfl
  · have hready' : (p.withTicks ticks).Ready := ⟨hready.accepts, hready.halted⟩
    rw [step_of_ready hready', hstep]
    rfl

/-- A step leaves earlier port writes as they are and depends on none of them. -/
lemma step_board_withPast (p : Processor) (board : Board) (past : Array (UInt16 × UInt8)) :
    p.step (board.withPast past) =
      { p.step board with bus := (p.step board).bus.withPast past } := by
  obtain ⟨i, haccepts, hstep⟩ | ⟨haccepts, hhalted, hstep⟩ | ⟨hready, hstep⟩ := p.step_cases board
  · rw [step_of_accepts haccepts, hstep, acceptInterrupt, Board.plan_run_withPast]
    rfl
  · rw [step_of_halted haccepts hhalted, hstep]
    rfl
  · rw [step_of_ready hready, hstep, execute, Board.plan_run_withPast]
    rfl

/-- A step leaves the past as it is and depends on nothing in it. -/
lemma step_withPast (p : Processor) (ticks : Ticks) (board : Board)
    (past : Array (UInt16 × UInt8)) :
    ∃ ticks', (p.withTicks ticks).step (board.withPast past) =
      { p.step board with
        processor := (p.step board).processor.withTicks ticks'
        bus := (p.step board).bus.withPast past } := by
  rw [step_withTicks, step_board_withPast]
  exact ⟨_, rfl⟩

end Processor

namespace Machine

/-- The machine with earlier port writes in its record and another count of T-states. -/
def withPast (m : Machine) (past : Array (UInt16 × UInt8)) (ticks : Ticks) : Machine where
  processor := m.processor.withTicks ticks
  board := m.board.withPast past

variable {m m' : Machine} {past : Array (UInt16 × UInt8)}

/-- The second machine is the first with the given past and some count of T-states. -/
def HasPast (past : Array (UInt16 × UInt8)) (m m' : Machine) : Prop :=
  ∃ ticks, m' = m.withPast past ticks

/-- A machine goes in lockstep with itself without its past, as long as the record is not emptied. -/
lemma lockstep_withPast (past : Array (UInt16 × UInt8)) :
    Lockstep (HasPast past) (fun _ => True) fun action => action ≠ .drainPortWrites where
  duration := by
    rintro m m' ⟨ticks, rfl⟩ -
    obtain ⟨ticks', hstep⟩ := m.processor.step_withPast ticks m.board past
    show ((m.processor.withTicks ticks).step (m.board.withPast past)).duration = m.step.duration
    rw [hstep]
    rfl
  next := by
    rintro m m' ⟨ticks, rfl⟩ -
    obtain ⟨ticks', hstep⟩ := m.processor.step_withPast ticks m.board past
    exact ⟨ticks', congrArg ofStep hstep⟩
  perform := by
    rintro m m' action hkeeps haction ⟨ticks, rfl⟩
    cases action with
    | step | run => cases haction
    | drainPortWrites => exact absurd rfl hkeeps
    | writeBlock start block =>
      obtain ⟨memory, hperform⟩ := exists_perform_writeBlock m.board.memory start block
      rw [hperform m rfl, hperform (m.withPast past ticks) rfl]
      exact ⟨ticks, rfl⟩
    | _ => exact ⟨ticks, rfl⟩

end Machine

end Z80

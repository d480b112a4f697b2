import Z80.Memory.Block
import Z80.Processor.Basic

/-!
# A whole machine

A processor on a board with 64 KiB of plain memory and ports. A port answers with what has been
set for it, or with all bits set, and everything that is written to a port is recorded. A
machine can be stepped, or run until a budget of T-states is used up.
-/

namespace Z80

/-- The board that a processor sits on. -/
structure Board where
  /-- The memory. -/
  memory : Memory := .zero
  /-- The answer of each port. -/
  inputs : UInt16 → UInt8 := fun _ => 0xFF
  /-- What has been written to ports, oldest first. -/
  writes : Array (UInt16 × UInt8) := #[]

/-- The processor reaches memory and ports of its board. -/
instance : Bus Board where
  peek b a := b.memory.read a
  read b a := (b.memory.read a, b)
  write b a v := { b with memory := b.memory.write a v }
  input b port := (b.inputs port, b)
  output b port v := { b with writes := b.writes.push (port, v) }

/-- A processor and its board. -/
structure Machine where
  /-- The processor. -/
  processor : Processor := {}
  /-- The board. -/
  board : Board := {}

namespace Machine

/-- A machine with clear memory and the processor as after power-on. -/
def ofConfig (config : Config) : Machine where
  processor := { config }

/-- A machine that starts with a complete memory image. -/
def ofImage (image : List UInt8) (config : Config) : Except MemoryError Machine :=
  (Memory.ofImage image).map fun memory =>
    { processor := { config }, board := { memory } }

/-- The machine with its processor changed. -/
def onProcessor (m : Machine) (change : Processor → Processor) : Machine :=
  { m with processor := change m.processor }

/-- Reads a register by name. -/
def get (m : Machine) (s : Selector) : UInt16 :=
  m.processor.registers.get s

/-- Writes a register by name. -/
def set (m : Machine) (s : Selector) (v : UInt16) : Machine :=
  m.onProcessor fun p => p.set s v

/-- Reads a byte of memory. -/
def read (m : Machine) (a : UInt16) : UInt8 :=
  m.board.memory.read a

/-- Writes a byte of memory. -/
def write (m : Machine) (a : UInt16) (v : UInt8) : Machine :=
  { m with board := { m.board with memory := m.board.memory.write a v } }

/-- Installs a block of bytes in memory. -/
def writeBlock (m : Machine) (start : UInt16) (block : List UInt8) :
    Except MemoryError Machine :=
  (m.board.memory.writeBlock start block).map fun memory =>
    { m with board := { m.board with memory } }

/-- Sets the answer of a port. -/
def setPortInput (m : Machine) (port : UInt16) (v : UInt8) : Machine :=
  let inputs := fun q => if q = port then v else m.board.inputs q
  { m with board := { m.board with inputs } }

/-- What has been written to ports since the last drain, oldest first. -/
def portWrites (m : Machine) : Array (UInt16 × UInt8) :=
  m.board.writes

/-- Empties the record of port writes. -/
def drainPortWrites (m : Machine) : Machine :=
  { m with board := { m.board with writes := #[] } }

/-! ## Stepping and running -/

/-- What a run gives. -/
structure Run where
  /-- The machine after the run. -/
  machine : Machine
  /-- The T-states of the run. -/
  duration : Nat
  /-- What is worth noting about the steps of the run, in order. -/
  events : Array Event

/-- One step. -/
def step (m : Machine) : Step Board :=
  m.processor.step m.board

/-- The machine after a step. -/
def ofStep (s : Step Board) : Machine where
  processor := s.processor
  board := s.bus

/-- Whole steps until at least `budget` T-states have passed, of which `elapsed` have passed
already. Every step takes time, so the run ends. -/
def runFrom (m : Machine) (budget elapsed : Nat) (events : Array Event) : Run :=
  if elapsed < budget then
    let s := m.step
    (ofStep s).runFrom budget (elapsed + s.duration)
      (match s.event with
        | none => events
        | some event => events.push event)
  else { machine := m, duration := elapsed, events }
  termination_by budget - elapsed
  decreasing_by
    have : 4 ≤ m.step.duration := m.processor.four_le_duration_step m.board
    show budget - (elapsed + m.step.duration) < budget - elapsed
    omega

/-- Whole steps until at least `budget` T-states have passed. -/
def run (m : Machine) (budget : Nat) : Run :=
  m.runFrom budget 0 #[]

end Machine

end Z80

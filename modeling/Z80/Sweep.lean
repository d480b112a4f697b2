import Z80.Machine
import Z80.Text.Hex

/-!
# Sweeps

A sweep executes one instruction from many starting states and tabulates what comes out. The
states are all combinations of values along a list of axes, the first axis moving slowest. Each
combination starts from a fresh machine.
-/

namespace Z80

namespace Sweep

/-- A part of the starting state. -/
inductive Place
  /-- A register. -/
  | register (s : Selector)
  /-- A byte of memory. -/
  | memory (a : UInt16)
  /-- The answer of a port. -/
  | port (number : UInt16)
  deriving DecidableEq

/-- Puts a value at a place; memory and ports take its low byte. -/
def Place.put (k : Place) (v : UInt16) (m : Machine) : Machine :=
  match k with
  | .register s => m.set s v
  | .memory a => m.write a (low v)
  | .port number => m.setPortInput number (low v)

/-- A column of the table. -/
inductive Column
  /-- The T-states of the step. -/
  | duration
  /-- A register after the step. -/
  | register (s : Selector)
  /-- A byte of memory after the step. -/
  | memory (a : UInt16)
  deriving DecidableEq

/-- The text of a column after a step. -/
def Column.text (k : Column) (s : Step Board) : String :=
  match k with
  | .duration => toString s.duration
  | .register selector => Hex.word (s.processor.registers.get selector)
  | .memory a => Hex.byte (s.bus.memory.read a)

/-- The values `first`, `first + stride`, ... that do not exceed `last`. -/
def range (first last stride : Nat) : List UInt16 :=
  (List.range ((last + stride - first) / stride)).map fun i => UInt16.ofNat (first + i * stride)

/-- All combinations of values along the axes, the first axis moving slowest. -/
def combinations : List (Place × List UInt16) → List (List (Place × UInt16))
  | [] => [[]]
  | (place, values) :: rest =>
    let tails := combinations rest
    values.flatMap fun v => tails.map fun tail => (place, v) :: tail

/-- Puts values at their places, in order. -/
def putAll (m : Machine) (settings : List (Place × UInt16)) : Machine :=
  settings.foldl (fun m setting => setting.1.put setting.2 m) m

end Sweep

/-- One instruction, the states to start it from, and what to tabulate. -/
structure Sweep where
  /-- The configuration of every machine. -/
  config : Config
  /-- The bytes of the instruction. -/
  code : List UInt8
  /-- What is put into every starting state. -/
  settings : List (Sweep.Place × UInt16)
  /-- The places that vary, with their values. -/
  axes : List (Sweep.Place × List UInt16)
  /-- The columns of the table. -/
  columns : List Sweep.Column

namespace Sweep

/-- The address of the instruction. -/
def origin : UInt16 :=
  0x0100

/-- A fresh machine about to execute the instruction. -/
def fresh (k : Sweep) : Machine :=
  let m := Machine.ofConfig k.config
  let memory := m.board.memory.writeEach origin k.code
  { m with board := { m.board with memory } }.set .pc origin

/-- The row for one combination of values. -/
def row (k : Sweep) (combination : List (Place × UInt16)) : String :=
  let s := (putAll k.fresh (k.settings ++ combination)).step
  String.intercalate ":" (k.columns.map fun column => column.text s)

/-- The rows for all combinations. -/
def rows (k : Sweep) : List String :=
  (combinations k.axes).map k.row

end Sweep

end Z80

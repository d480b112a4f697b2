import Z80.Bus.Basic
import Z80.Text.Hex

/-!
# Buses that keep a record

A traced bus passes every access on to another bus and notes it, in order. Looking at memory is
not an access and leaves no note.
-/

namespace Z80

/-- One access to a bus. -/
inductive Access
  /-- A byte read from memory. -/
  | read (address : UInt16) (value : UInt8)
  /-- A byte written to memory. -/
  | write (address : UInt16) (value : UInt8)
  /-- A byte read from a port. -/
  | input (port : UInt16) (value : UInt8)
  /-- A byte written to a port. -/
  | output (port : UInt16) (value : UInt8)
  deriving DecidableEq

/-- The note for an access: its kind, its address and the byte that passed. -/
def Access.text : Access → String
  | .read a v => "r" ++ Hex.word a ++ "=" ++ Hex.byte v
  | .write a v => "w" ++ Hex.word a ++ "=" ++ Hex.byte v
  | .input a v => "i" ++ Hex.word a ++ "=" ++ Hex.byte v
  | .output a v => "o" ++ Hex.word a ++ "=" ++ Hex.byte v

/-- A bus together with the accesses made to it. -/
structure Traced (β : Type) where
  /-- The bus that does the work. -/
  bus : β
  /-- The accesses so far, oldest first. -/
  accesses : Array Access

namespace Traced

/-- A bus without any accesses noted yet. -/
def start {β : Type} (bus : β) : Traced β where
  bus := bus
  accesses := #[]

/-- The traced bus after one more access, which gave `bus`. -/
def note {β : Type} (t : Traced β) (bus : β) (access : Access) : Traced β where
  bus := bus
  accesses := t.accesses.push access

end Traced

/-- Accesses are passed on and noted. -/
instance {β : Type} [Bus β] : Bus (Traced β) where
  peek t a := MemoryBus.peek t.bus a
  read t a :=
    let result := MemoryBus.read t.bus a
    (result.1, t.note result.2 (.read a result.1))
  write t a v := t.note (MemoryBus.write t.bus a v) (.write a v)
  input t port :=
    let result := Bus.input t.bus port
    (result.1, t.note result.2 (.input port result.1))
  output t port v := t.note (Bus.output t.bus port v) (.output port v)

end Z80

import Z80.Bus.Basic
import Z80.Registers.Basic

/-!
# Plans

Everything that the processor does between two looks for interrupts has one shape: at most one
value is read from the bus, the new registers follow from it, and at most one value is sent to
the bus in the end. A plan is that shape as data. It depends on the registers only, so what an
instruction reads, writes and changes can be told without a bus; `Plan.run` carries it out.
-/

namespace Z80

/-- What is sent to the bus in the end. -/
inductive Store
  /-- Nothing. -/
  | nothing
  /-- A byte to memory. -/
  | byte (address : UInt16) (value : UInt8)
  /-- A word to memory, the low byte first. -/
  | word (address value : UInt16)
  /-- A word to the stack whose top is at `sp`, the high byte first. -/
  | push (sp value : UInt16)
  /-- A byte to a port. -/
  | port (number : UInt16) (value : UInt8)
  deriving DecidableEq

/-- The outcome of a plan once the value it reads is known. -/
structure Effect where
  /-- The new registers. -/
  registers : Registers
  /-- What is sent to the bus. -/
  store : Store := .nothing
  /-- The address noted for the address latch. -/
  address : UInt16 := 0
  /-- The register pair noted for the address latch. -/
  pair : UInt16 := 0
  /-- Whether a relative or conditional jump, a call or a return is made, or a block operation is
  going to repeat. -/
  taken : Bool := false
  deriving DecidableEq

/-- What to read, and what follows from it. -/
inductive Plan
  /-- Nothing is read. -/
  | done (effect : Effect)
  /-- A byte of memory is read. -/
  | readByte (address : UInt16) (next : UInt8 → Effect)
  /-- A word of memory is read. -/
  | readWord (address : UInt16) (next : UInt16 → Effect)
  /-- A port is read. -/
  | readPort (number : UInt16) (next : UInt8 → Effect)

variable {β : Type} [Bus β]

/-- Sends a value to the bus. -/
def Store.run (s : Store) (bus : β) : β :=
  match s with
  | .nothing => bus
  | .byte address value => MemoryBus.write bus address value
  | .word address value => MemoryBus.writeWord bus address value
  | .push sp value => MemoryBus.pushWord bus sp value
  | .port number value => Bus.output bus number value

/-- Reads what the plan reads. -/
def Plan.fetch (p : Plan) (bus : β) : Effect × β :=
  match p with
  | .done effect => (effect, bus)
  | .readByte address next =>
    let result := MemoryBus.read bus address
    (next result.1, result.2)
  | .readWord address next =>
    let result := MemoryBus.readWord bus address
    (next result.1, result.2)
  | .readPort number next =>
    let result := Bus.input bus number
    (next result.1, result.2)

/-- Reads what the plan reads, then sends what follows from it. -/
def Plan.run (p : Plan) (bus : β) : Effect × β :=
  let fetched := p.fetch bus
  (fetched.1, fetched.1.store.run fetched.2)

end Z80

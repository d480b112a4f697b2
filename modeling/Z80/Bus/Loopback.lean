import Z80.Bus.Basic

/-!
# A bus without devices

Plain memory whose ports are connected to nothing. Reading a port gives the two halves of the
port's own number combined by exclusive disjunction, so that different ports answer
differently; what is written to a port is lost.
-/

namespace Z80

/-- Plain memory with ports that are connected to nothing. -/
structure Loopback where
  /-- The memory. -/
  memory : Memory

/-- Ports answer from their own number. -/
instance : Bus Loopback where
  peek b a := b.memory.read a
  read b a := (b.memory.read a, b)
  write b a v := { b with memory := b.memory.write a v }
  input b port := (high port ^^^ low port, b)
  output b _ _ := b

end Z80

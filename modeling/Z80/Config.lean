/-!
# Configuration

What is fixed when a processor is made: the chip revision and the byte found on the data bus
when an interrupting device does not supply one.
-/

namespace Z80

/-- The two known kinds of chip. They differ only in the high byte that a store of the
accumulator leaves in the address latch. -/
inductive Revision
  /-- The high byte takes the value of the accumulator. -/
  | nmos
  /-- The high byte is cleared. -/
  | bm1
  deriving DecidableEq

namespace Revision

/-- The name of a revision. -/
def name : Revision → String
  | .nmos => "Nmos"
  | .bm1 => "Bm1"

/-- The revision with the given name. -/
def ofName? (s : String) : Option Revision :=
  if s = "Nmos" then some .nmos
  else if s = "Bm1" then some .bm1
  else none

/-- A revision is found by its name. -/
@[simp] theorem ofName?_name (k : Revision) : ofName? k.name = some k := by
  cases k <;> rfl

end Revision

/-- The configuration of a processor. -/
structure Config where
  /-- The chip revision. -/
  revision : Revision := .nmos
  /-- The byte on the data bus during an acknowledge that no device answers; a bus that nobody
  drives reads as all ones. -/
  interruptByte : UInt8 := 0xFF
  deriving DecidableEq

end Z80

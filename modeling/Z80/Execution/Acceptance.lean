import Z80.Execution.Flow
import Z80.Interrupts

/-!
# Accepting an interrupt

An accepted interrupt ends a wait, puts the program counter on the stack and goes to a service
address. A non-maskable interrupt has a fixed one. For a maskable one the interrupt mode decides:
the device puts a restart instruction on the bus (mode 0), the address is fixed (mode 1), or it
stands in a table that the page register and the byte of the device point into (other modes).
-/

namespace Z80

/-- The service address of a maskable interrupt in mode 0: that of the restart instruction on
the bus, or the fixed one if another byte is there. -/
def restartAddress (data : UInt8) : UInt16 :=
  if data &&& 0xC7 = 0xC7 then (data &&& 0x38).toUInt16 else 0x38

namespace Registers

/-- Goes to the service address, which the address latch holds as well. -/
def serve (k : Registers) (target : UInt16) : Effect :=
  { k.call target with registers := { (k.call target).registers with wz := target } }

/-- The plan for an accepted interrupt. -/
def accept (k : Registers) (interrupt : Interrupt) : Plan :=
  let awake := { k.advanceRefresh 1 with halted := false, iff1 := false }
  match interrupt with
  | .nonMaskable => .done (awake.serve 0x66)
  | .maskable data =>
    let shut := { awake with iff2 := false }
    if k.im = 0 then .done (shut.serve (restartAddress data))
    else if k.im = 1 then .done (shut.serve 0x38)
    else .readWord (word k.i data) shut.serve

end Registers

/-- The T-states of accepting an interrupt in the given mode. -/
def Interrupt.duration (interrupt : Interrupt) (mode : UInt8) : Nat :=
  match interrupt with
  | .nonMaskable => 11
  | .maskable _ => if mode = 0 ∨ mode = 1 then 13 else 19

end Z80

import Z80.Interrupts
import Z80.Text.Hex

/-!
# Events

The two things about a step that are worth a line in a log: an interrupt that was accepted, and
an opcode without a meaning.
-/

namespace Z80

/-- Something worth noting about a step. -/
inductive Event
  /-- An interrupt was accepted in an interrupt mode; `pc` was put on the stack. -/
  | accepted (interrupt : Interrupt) (mode : UInt8) (pc target : UInt16)
  /-- An opcode of the extended page, at the address `pc` of its prefix, has no meaning. -/
  | undefinedOpcode (opcode : UInt8) (pc : UInt16)
  deriving DecidableEq

/-- The name of an interrupt, with the byte of the device in decimal. -/
def Interrupt.name : Interrupt → String
  | .nonMaskable => "Nmi"
  | .maskable data => "Maskable(" ++ toString data.toNat ++ ")"

/-- The line for an event: its level, then what happened. -/
def Event.line : Event → String
  | .accepted interrupt mode pc target =>
    "TRACE Z80 accepted " ++ interrupt.name ++ " in IM " ++ toString mode.toNat ++ " at PC=" ++
      Hex.word pc ++ ", vector " ++ Hex.word target
  | .undefinedOpcode opcode pc =>
    "DEBUG Undefined opcode ED " ++ Hex.byte opcode ++ " at " ++ Hex.word pc ++
      ", executed as NOP"

end Z80

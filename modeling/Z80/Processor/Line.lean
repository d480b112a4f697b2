import Z80.Processor.Basic
import Z80.Registers.Line

/-!
# Processors as text

A processor is shown on one line: its registers, which interrupts wait, and the count of
T-states.
-/

namespace Z80.Processor

/-- The line for a processor. -/
def line (p : Processor) : String :=
  p.registers.line ++ " " ++ Hex.bit p.interrupts.request.isSome ++
    Hex.bit p.interrupts.nmi ++ " " ++ toString p.ticks

end Z80.Processor

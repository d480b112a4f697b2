import Z80.Registers.Selector
import Z80.Text.Hex

/-!
# Registers as text

A register file is shown on one line: fourteen words of four hexadecimal digits, then the two
interrupt flip-flops, the interrupt mode and a mark for the halt line.
-/

namespace Z80.Registers

/-- The words of the line, in order. -/
def lineSelectors : List Selector :=
  [.af, .bc, .de, .hl, .shadowAF, .shadowBC, .shadowDE, .shadowHL, .ix, .iy, .sp, .pc, .ir, .wz]

/-- The interrupt flip-flops, the interrupt mode in decimal, and whether the processor waits. -/
def stateField (k : Registers) : String :=
  Hex.bit k.iff1 ++ Hex.bit k.iff2 ++ toString k.im.toNat ++ (if k.halted then "H" else "-")

/-- The line for a register file. -/
def line (k : Registers) : String :=
  String.intercalate " " (lineSelectors.map (fun s => Hex.word (k.get s)) ++ [k.stateField])

/-- Every selector with its value, in listing order. -/
def listing (k : Registers) : List String :=
  Selector.all.map fun s => s.name ++ "=" ++ Hex.word (k.get s)

end Z80.Registers

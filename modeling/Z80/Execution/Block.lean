import Z80.Arithmetic.Byte
import Z80.Execution.Plan
import Z80.Instruction.Operand

/-!
# Block operations

A block operation handles one byte and moves its addresses on. A repeating one that is not
finished moves the program counter back to its own first byte, so that the next step handles
the next byte and interrupts can be accepted in between.
-/

namespace Z80.Registers

/-- Moves the program counter back over the two bytes of a block operation if it repeats. -/
def rewindIf (k : Registers) (again : Bool) : Registers :=
  if again then { k with pc := k.pc - 2 } else k

/-- Copies the byte at HL to the address in DE and counts BC down. The two bit copies are bits 3
and 1 of the sum of the byte and the accumulator. -/
def blockTransfer (k : Registers) (direction : Direction) (repeating : Bool) : Plan :=
  .readByte k.hl fun v =>
    let left := k.bc - 1
    let n := v + k.a
    let again := repeating && left != 0
    let moved := ((k.setHL (direction.step k.hl)).setDE (direction.step k.de)).setBC left
    { registers := rewindIf
        { moved with
          f := { k.f with
            y := bit n 1
            h := false
            x := bit n 3
            p := left != 0
            n := false } }
        again
      store := .byte k.de v
      taken := again }

/-- Compares the accumulator with the byte at HL and counts BC down. The two bit copies are bits
3 and 1 of the difference, less the half borrow. -/
def blockSearch (k : Registers) (direction : Direction) (repeating : Bool) : Plan :=
  .readByte k.hl fun v =>
    let left := k.bc - 1
    let difference := Arithmetic.sub k.a v false
    let n := difference.value - difference.flags.h.toUInt8
    let again := repeating && left != 0 && difference.value != 0
    let moved := (k.setHL (direction.step k.hl)).setBC left
    { registers := rewindIf
        { moved with
          f := { difference.flags with
            y := bit n 1
            x := bit n 3
            p := left != 0
            c := k.f.c } }
        again
      taken := again }

/-- The flags of a block operation with a port: those of the counter `b`, and carries and parity
from the sum of the byte that passed and `addend`. -/
def portBlockFlags (b value addend : UInt8) : Flags :=
  let sum := value.toNat + addend.toNat
  { Flags.ofValue b with
    h := decide (255 < sum)
    p := Flags.parity (UInt8.ofNat (sum % 8) ^^^ b)
    n := bit value 7
    c := decide (255 < sum) }

/-- Reads the port in BC to the address in HL and counts B down. -/
def blockInput (k : Registers) (direction : Direction) (repeating : Bool) : Plan :=
  .readPort k.bc fun v =>
    let left := k.b - 1
    let again := repeating && left != 0
    { registers := rewindIf
        { k.setHL (direction.step k.hl) with
          b := left
          f := portBlockFlags left v (direction.stepByte k.c) }
        again
      store := .byte k.hl v
      pair := k.bc
      taken := again }

/-- Counts B down and writes the byte at HL to the port that BC then names. -/
def blockOutput (k : Registers) (direction : Direction) (repeating : Bool) : Plan :=
  .readByte k.hl fun v =>
    let left := k.b - 1
    let again := repeating && left != 0
    { registers := rewindIf
        { k.setHL (direction.step k.hl) with
          b := left
          f := portBlockFlags left v (low (direction.step k.hl)) }
        again
      store := .port (word left k.c) v
      pair := word left k.c
      taken := again }

end Z80.Registers

import Z80.Registers.Basic

/-!
# Operands

The places that an instruction reads or writes: byte registers, register pairs, and bytes of
memory at HL or at a distance from an index register.
-/

namespace Z80

/-- The two index registers. -/
inductive Index
  /-- The first one. -/
  | ix
  /-- The second one. -/
  | iy
  deriving DecidableEq

/-- The byte registers that an instruction can name. -/
inductive ByteRegister
  /-- Accumulator. -/
  | a
  /-- B. -/
  | b
  /-- C. -/
  | c
  /-- D. -/
  | d
  /-- E. -/
  | e
  /-- H. -/
  | h
  /-- L. -/
  | l
  /-- The high byte of an index register. -/
  | indexHigh (x : Index)
  /-- The low byte of an index register. -/
  | indexLow (x : Index)
  deriving DecidableEq

/-- The register pairs that an instruction can name. -/
inductive Pair
  /-- Accumulator and flags. -/
  | af
  /-- B and C. -/
  | bc
  /-- D and E. -/
  | de
  /-- H and L. -/
  | hl
  /-- An index register. -/
  | index (x : Index)
  /-- The stack pointer. -/
  | sp
  deriving DecidableEq

/-- The places of a byte operand. -/
inductive Operand
  /-- A register. -/
  | register (r : ByteRegister)
  /-- The memory at HL. -/
  | atHL
  /-- The memory at a distance from an index register. -/
  | atIndex (x : Index)
  deriving DecidableEq

/-- The places from which the accumulator is loaded and to which it is stored through an
address. -/
inductive Pointer
  /-- The address is in BC. -/
  | bc
  /-- The address is in DE. -/
  | de
  /-- The address is part of the instruction. -/
  | direct
  deriving DecidableEq

/-- The eight conditions on the flags. -/
inductive Condition
  /-- Zero clear. -/
  | nz
  /-- Zero set. -/
  | z
  /-- Carry clear. -/
  | nc
  /-- Carry set. -/
  | c
  /-- Parity odd, or no overflow. -/
  | po
  /-- Parity even, or overflow. -/
  | pe
  /-- Sign clear. -/
  | p
  /-- Sign set. -/
  | m
  deriving DecidableEq

/-- Whether a condition holds. -/
def Condition.holds (k : Condition) (f : Flags) : Bool :=
  match k with
  | .nz => !f.z
  | .z => f.z
  | .nc => !f.c
  | .c => f.c
  | .po => !f.p
  | .pe => f.p
  | .p => !f.s
  | .m => f.s

/-- The direction in which a block instruction moves its addresses. -/
inductive Direction
  /-- Upwards. -/
  | up
  /-- Downwards. -/
  | down
  deriving DecidableEq

/-- The word one place further in a direction. -/
def Direction.step (k : Direction) (w : UInt16) : UInt16 :=
  match k with
  | .up => w + 1
  | .down => w - 1

/-- The byte one place further in a direction. -/
def Direction.stepByte (k : Direction) (v : UInt8) : UInt8 :=
  match k with
  | .up => v + 1
  | .down => v - 1

namespace Registers

/-- The value of an index register. -/
def index (k : Registers) : Index → UInt16
  | .ix => k.ix
  | .iy => k.iy

/-- Writes an index register. -/
def setIndex (k : Registers) (x : Index) (v : UInt16) : Registers :=
  match x with
  | .ix => { k with ix := v }
  | .iy => { k with iy := v }

/-- The value of a byte register. -/
def byte (k : Registers) : ByteRegister → UInt8
  | .a => k.a
  | .b => k.b
  | .c => k.c
  | .d => k.d
  | .e => k.e
  | .h => k.h
  | .l => k.l
  | .indexHigh x => high (k.index x)
  | .indexLow x => low (k.index x)

/-- Writes a byte register. -/
def setByte (k : Registers) (r : ByteRegister) (v : UInt8) : Registers :=
  match r with
  | .a => { k with a := v }
  | .b => { k with b := v }
  | .c => { k with c := v }
  | .d => { k with d := v }
  | .e => { k with e := v }
  | .h => { k with h := v }
  | .l => { k with l := v }
  | .indexHigh x => k.setIndex x (word v (low (k.index x)))
  | .indexLow x => k.setIndex x (word (high (k.index x)) v)

/-- The value of a register pair. -/
def pair (k : Registers) : Pair → UInt16
  | .af => k.af
  | .bc => k.bc
  | .de => k.de
  | .hl => k.hl
  | .index x => k.index x
  | .sp => k.sp

/-- Writes a register pair. -/
def setPair (k : Registers) (p : Pair) (v : UInt16) : Registers :=
  match p with
  | .af => k.setAF v
  | .bc => k.setBC v
  | .de => k.setDE v
  | .hl => k.setHL v
  | .index x => k.setIndex x v
  | .sp => { k with sp := v }

/-- A byte register that is written is read back. -/
@[simp] theorem byte_setByte (k : Registers) (r : ByteRegister) (v : UInt8) :
    (k.setByte r v).byte r = v := by
  cases r with
  | indexHigh x => cases x <;> simp [byte, setByte, index, setIndex]
  | indexLow x => cases x <;> simp [byte, setByte, index, setIndex]
  | _ => rfl

/-- A register pair that is written is read back. -/
@[simp] theorem pair_setPair (k : Registers) (p : Pair) (v : UInt16) :
    (k.setPair p v).pair p = v := by
  cases p with
  | index x => cases x <;> rfl
  | sp => rfl
  | _ => simp [pair, setPair, Bank.af, Bank.bc, Bank.de, Bank.hl, setAF, setBC, setDE, setHL]

end Registers

end Z80

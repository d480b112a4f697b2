import Z80.Execution.Plan

/-!
# Jumps and the stack

The program counter already points behind the instruction when a jump is made, so relative
distances are counted from there and a call puts that address on the stack.
-/

namespace Z80.Registers

/-- Goes to `target`.  Such a jump is not noted as taken. -/
def jump (k : Registers) (target : UInt16) : Effect where
  registers := { k with pc := target }
  address := target

/-- Goes to `target` if `taken`. -/
def jumpIf (k : Registers) (target : UInt16) (taken : Bool) : Effect where
  registers := if taken then { k with pc := target } else k
  address := target
  taken := taken

/-- Goes over the distance in the byte `e` if `taken`. -/
def jumpRelativeIf (k : Registers) (e : UInt8) (taken : Bool) : Effect :=
  k.jumpIf (displaced k.pc e.toInt8) taken

/-- Puts a word on the stack. -/
def push (k : Registers) (v : UInt16) : Effect where
  registers := { k with sp := k.sp - 2 }
  store := .push k.sp v

/-- Takes a word from the stack; `next` is given the word and the registers after it. -/
def pop (k : Registers) (next : UInt16 → Registers → Effect) : Plan :=
  .readWord k.sp fun v => next v { k with sp := k.sp + 2 }

/-- Puts the program counter on the stack and goes to `target`. -/
def call (k : Registers) (target : UInt16) : Effect where
  registers := { k with sp := k.sp - 2, pc := target }
  store := .push k.sp k.pc
  address := target
  taken := true

/-- Calls `target` if `taken`; the target is noted in either case. -/
def callIf (k : Registers) (target : UInt16) (taken : Bool) : Effect :=
  if taken then k.call target else { registers := k, address := target }

/-- Takes the program counter from the stack. -/
def ret (k : Registers) : Plan :=
  k.pop fun v rest => { registers := { rest with pc := v }, address := v, taken := true }

end Z80.Registers

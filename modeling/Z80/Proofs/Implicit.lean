import Z80.Proofs.Step

/-!
# Implicit registers

The operands of an instruction are byte registers, register pairs and bytes of memory.  The registers
that no operand names are implicit: the shadow bank, the program counter, the interrupt page, the
refresh counter, the address latch, and the state of the interrupt system and of the halt line.

Writing an operand keeps all of them, so an operation changes implicit registers only by what is
particular to it.  `Operation.implicit` lists these changes, and `Operation.implicit_plan` says that
there are no others.  What becomes of the program counter is left open here.
-/

namespace Z80

/-- The registers that no operand names. -/
structure Implicit where
  /-- The shadow bank. -/
  shadow : Bank
  /-- The program counter. -/
  pc : UInt16
  /-- The page of the interrupt vectors. -/
  i : UInt8
  /-- The refresh counter. -/
  r : UInt8
  /-- The address latch. -/
  wz : UInt16
  /-- Whether maskable interrupts are let in. -/
  iff1 : Bool
  /-- The saved interrupt enable. -/
  iff2 : Bool
  /-- The interrupt mode. -/
  im : UInt8
  /-- Whether the processor waits. -/
  halted : Bool

/-! ## Writing operands -/

namespace Registers

/-- The implicit registers of a register file. -/
def implicit (k : Registers) : Implicit where
  shadow := k.shadow
  pc := k.pc
  i := k.i
  r := k.r
  wz := k.wz
  iff1 := k.iff1
  iff2 := k.iff2
  im := k.im
  halted := k.halted

variable (k : Registers)

lemma implicit_setIndex (x : Index) (v : UInt16) : (k.setIndex x v).implicit = k.implicit := by
  cases x <;> rfl

lemma implicit_setByte (r : ByteRegister) (v : UInt8) :
    (k.setByte r v).implicit = k.implicit := by
  cases r with
  | indexHigh x => exact k.implicit_setIndex x _
  | indexLow x => exact k.implicit_setIndex x _
  | _ => rfl

lemma implicit_setByteIf (r : Option ByteRegister) (v : UInt8) :
    (k.setByteIf r v).implicit = k.implicit := by
  cases r with
  | none => rfl
  | some r => exact k.implicit_setByte r v

lemma implicit_setPair (p : Pair) (v : UInt16) : (k.setPair p v).implicit = k.implicit := by
  cases p with
  | index x => exact k.implicit_setIndex x v
  | _ => rfl

end Registers

namespace Operand

/-- The byte of an operand on a board. -/
def byte (o : Operand) (d : Int8) (k : Registers) (board : Board) : UInt8 :=
  match o with
  | .register r => k.byte r
  | .atHL | .atIndex _ => board.memory.read (o.address d k)

/-- Reading an operand goes on with its byte. -/
@[simp] lemma outcome_read (o : Operand) (d : Int8) (k : Registers) (next : UInt8 → Effect)
    (board : Board) : (o.read d k next).outcome board = next (o.byte d k board) := by
  cases o <;> rfl

lemma implicit_write (o : Operand) (d : Int8) (k : Registers) (v : UInt8) :
    (o.write d k v).registers.implicit = k.implicit := by
  cases o with
  | register r => exact k.implicit_setByte r v
  | _ => rfl

end Operand

/-! ## Going elsewhere

Going back, jumping and calling set the program counter and no other implicit register.
-/

namespace Registers

variable (k : Registers)

/-- Where all implicit registers are kept, the program counter is one of them. -/
lemma implicit_eq_of_kept {k k' : Registers} (h : k'.implicit = k.implicit) :
    k'.implicit = { k.implicit with pc := k'.pc } := by
  have hpc : k'.pc = k.pc := congrArg Implicit.pc h
  rw [h, hpc]
  rfl

lemma implicit_rewindIf (again : Bool) :
    (k.rewindIf again).implicit = { k.implicit with pc := (k.rewindIf again).pc } := by
  cases again <;> rfl

lemma implicit_jumpIf (target : UInt16) (taken : Bool) :
    (k.jumpIf target taken).registers.implicit =
      { k.implicit with pc := (k.jumpIf target taken).registers.pc } := by
  cases taken <;> rfl

lemma implicit_callIf (target : UInt16) (taken : Bool) :
    (k.callIf target taken).registers.implicit =
      { k.implicit with pc := (k.callIf target taken).registers.pc } := by
  cases taken <;> rfl

end Registers

/-! ## Operations -/

namespace Operation

/-- The implicit registers after an operation that goes to `pc`. -/
def implicit (op : Operation) (k : Registers) (pc : UInt16) : Implicit :=
  let kept := { k.implicit with pc }
  match op with
  | .halt => { kept with halted := true }
  | .disableInterrupts => { kept with iff1 := false, iff2 := false }
  | .enableInterrupts => { kept with iff1 := true, iff2 := true }
  | .setMode mode => { kept with im := mode }
  | .exchangeAF => { kept with shadow := k.exchangeAF.shadow }
  | .exchangeMain => { kept with shadow := k.exchangeMain.shadow }
  | .setInterruptPage => { kept with i := k.a }
  | .setRefresh => { kept with r := k.a }
  | .retInterrupt => { kept with iff1 := k.iff2 }
  | _ => kept

/-- An operation changes no other implicit register, whatever it reads. -/
lemma implicit_plan (op : Operation) (d : Int8) (immediate : UInt16) (k : Registers)
    (board : Board) :
    let after := ((op.plan d immediate k).outcome board).registers
    after.implicit = op.implicit k after.pc := by
  cases op with
  | exchangeTop p | loadPair p | loadPairImmediate p | incrementPair p | decrementPair p =>
    exact Registers.implicit_eq_of_kept (k.implicit_setPair p _)
  | pop p => exact Registers.implicit_eq_of_kept (Registers.implicit_setPair _ p _)
  | addPair target source => exact Registers.implicit_eq_of_kept (k.implicit_setPair target _)
  | load target source =>
    simp only [plan, Operand.outcome_read]
    exact Registers.implicit_eq_of_kept (target.implicit_write d k _)
  | loadImmediate o => exact Registers.implicit_eq_of_kept (o.implicit_write d k _)
  | increment o | decrement o =>
    simp only [plan, Operand.outcome_read]
    exact Registers.implicit_eq_of_kept (o.implicit_write d _ _)
  | combine | testBit =>
    simp only [plan, Operand.outcome_read]
    rfl
  | shift s o copy | resetBit n o copy | setBit n o copy =>
    simp only [plan, Operand.outcome_read]
    exact Registers.implicit_eq_of_kept ((o.implicit_write d _ _).trans (k.implicit_setByteIf copy _))
  | input target => exact Registers.implicit_eq_of_kept (k.implicit_setByteIf target _)
  | jumpIf condition | jumpRelativeIf condition => exact k.implicit_jumpIf _ _
  | countAndJump => exact Registers.implicit_jumpIf _ _ _
  | callIf condition => exact k.implicit_callIf _ _
  | retIf condition =>
    simp only [plan]
    split <;> rfl
  | blockTransfer | blockSearch | blockInput | blockOutput =>
    exact Registers.implicit_rewindIf _ _
  | _ => rfl

end Operation

end Z80

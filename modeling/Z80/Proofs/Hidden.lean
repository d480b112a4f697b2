import Z80.Proofs.Step

/-!
# Registers that hardly any operation looks at

The address latch shows in the flags after a test of a bit of the memory at HL, and the shadow bank is
seen by the two exchanges with it.  No other operation looks at either.

A `HiddenChange` is a change of the latch and of the shadow bank.  An operation that does not look at
what is changed does on changed registers what it does on the registers themselves, and the change is
found again in the outcome (`Operation.plan_apply`).
-/

namespace Z80

/-- A change of the registers that hardly any operation looks at. -/
structure HiddenChange where
  /-- The change of the address latch. -/
  latch : UInt16 → UInt16 := id
  /-- The change of the shadow bank. -/
  shadow : Bank → Bank := id

namespace HiddenChange

/-- The changed registers. -/
def apply (c : HiddenChange) (k : Registers) : Registers :=
  { k with wz := c.latch k.wz, shadow := c.shadow k.shadow }

variable (c : HiddenChange) (k : Registers)

/-! ## Registers and operands -/

@[simp] lemma byte_apply (r : ByteRegister) : (c.apply k).byte r = k.byte r := by
  cases r with
  | indexHigh x | indexLow x => cases x <;> rfl
  | _ => rfl

@[simp] lemma pair_apply (p : Pair) : (c.apply k).pair p = k.pair p := by
  cases p with
  | index x => cases x <;> rfl
  | _ => rfl

@[simp] lemma setByte_apply (r : ByteRegister) (v : UInt8) :
    (c.apply k).setByte r v = c.apply (k.setByte r v) := by
  cases r with
  | indexHigh x | indexLow x => cases x <;> rfl
  | _ => rfl

@[simp] lemma setByteIf_apply (r : Option ByteRegister) (v : UInt8) :
    (c.apply k).setByteIf r v = c.apply (k.setByteIf r v) := by
  cases r with
  | none => rfl
  | some r => exact c.setByte_apply k r v

@[simp] lemma setPair_apply (p : Pair) (v : UInt16) :
    (c.apply k).setPair p v = c.apply (k.setPair p v) := by
  cases p with
  | index x => cases x <;> rfl
  | _ => rfl

@[simp] lemma jumpIf_apply (target : UInt16) (taken : Bool) :
    (c.apply k).jumpIf target taken = (k.jumpIf target taken).onRegisters c.apply := by
  cases taken <;> rfl

@[simp] lemma callIf_apply (target : UInt16) (taken : Bool) :
    (c.apply k).callIf target taken = (k.callIf target taken).onRegisters c.apply := by
  cases taken <;> rfl

@[simp] lemma address_apply (o : Operand) (d : Int8) : o.address d (c.apply k) = o.address d k := by
  cases o with
  | atIndex x => cases x <;> rfl
  | _ => rfl

/-- Reading an operand does not look at what is changed. -/
lemma read_apply (o : Operand) (d : Int8) {next next' : UInt8 → Effect}
    (h : ∀ v, next' v = (next v).onRegisters c.apply) :
    o.read d (c.apply k) next' = (o.read d k next).onRegisters c.apply := by
  obtain rfl : next' = fun v => (next v).onRegisters c.apply := funext h
  cases o with
  | register r => simp only [Operand.read, byte_apply, Plan.onRegisters]
  | _ => simp only [Operand.read, address_apply, Plan.onRegisters]

/-- Writing an operand keeps the change. -/
lemma write_apply (o : Operand) (d : Int8) (v : UInt8) :
    o.write d (c.apply k) v = (o.write d k v).onRegisters c.apply := by
  cases o with
  | register r => simp only [Operand.write, setByte_apply, Effect.onRegisters]
  | _ => simp only [Operand.write, address_apply, Effect.onRegisters]

end HiddenChange

/-- Going back to repeat changes the program counter only. -/
lemma Registers.rewindIf_eq (k : Registers) (again : Bool) :
    k.rewindIf again = { k with pc := if again = true then k.pc - 2 else k.pc } := by
  cases again <;> rfl

/-! ## Operations -/

namespace Operation

/-- Whether an operation looks at the address latch. -/
def readsLatch : Operation → Bool
  | .testBit _ .atHL => true
  | _ => false

/-- Whether an operation exchanges registers with the shadow bank. -/
def exchangesShadow : Operation → Bool
  | .exchangeAF | .exchangeMain => true
  | _ => false

/-- An operation that does not look at what is changed does the same on changed registers, and the
change is found in the outcome. -/
lemma plan_apply (op : Operation) (c : HiddenChange) (hlatch : op.readsLatch = true → c.latch = id)
    (hshadow : op.exchangesShadow = true → c.shadow = id) (d : Int8) (immediate : UInt16)
    (k : Registers) :
    op.plan d immediate (c.apply k) = (op.plan d immediate k).onRegisters c.apply := by
  cases op with
  | exchangeAF | exchangeMain =>
    obtain ⟨latch, shadow⟩ := c
    obtain rfl : shadow = id := hshadow rfl
    rfl
  | exchangeTop p | loadPair p | storePair p | loadPairImmediate p | incrementPair p
  | decrementPair p =>
    simp only [plan, c.setPair_apply, c.pair_apply]
    rfl
  | pop p =>
    refine congrArg (Plan.readWord k.sp) (funext fun v => ?_)
    exact congrArg (fun k : Registers => ({ registers := k } : Effect))
      (c.setPair_apply { k with sp := k.sp + 2 } p v)
  | addPair target source =>
    simp only [plan, c.setPair_apply, c.pair_apply]
    rfl
  | load target source =>
    simp only [plan]
    refine c.read_apply k source d fun v => ?_
    rw [c.write_apply, c.address_apply]
    rfl
  | loadImmediate target => exact congrArg Plan.done (c.write_apply k target d _)
  | increment o =>
    simp only [plan]
    refine c.read_apply k o d fun v => ?_
    exact c.write_apply { k with f := (Arithmetic.increment v k.f.c).flags } o d _
  | decrement o =>
    simp only [plan]
    refine c.read_apply k o d fun v => ?_
    exact c.write_apply { k with f := (Arithmetic.decrement v k.f.c).flags } o d _
  | combine operator source =>
    simp only [plan, c.address_apply]
    exact c.read_apply k source d fun v => rfl
  | shift s o copy =>
    simp only [plan, c.setByteIf_apply]
    refine c.read_apply k o d fun v => ?_
    exact c.write_apply { k.setByteIf copy _ with f := _ } o d _
  | testBit n o =>
    simp only [plan, c.address_apply]
    refine c.read_apply k o d fun v => ?_
    cases o with
    | register r => rfl
    | atHL =>
      obtain ⟨latch, shadow⟩ := c
      obtain rfl : latch = id := hlatch rfl
      rfl
    | atIndex x => cases x <;> rfl
  | resetBit n o copy | setBit n o copy =>
    simp only [plan, c.setByteIf_apply]
    exact c.read_apply k o d fun v => c.write_apply _ o d _
  | jumpIf condition => exact congrArg Plan.done (c.jumpIf_apply k _ _)
  | jumpRelativeIf condition => exact congrArg Plan.done (c.jumpIf_apply k _ _)
  | countAndJump => exact congrArg Plan.done (c.jumpIf_apply { k with b := k.b - 1 } _ _)
  | callIf condition => exact congrArg Plan.done (c.callIf_apply k _ _)
  | retIf condition =>
    have hf : (c.apply k).f = k.f := rfl
    simp only [plan, hf]
    split <;> rfl
  | input target =>
    simp only [plan, c.setByteIf_apply]
    rfl
  -- Whether a block operation goes back shows in the program counter only, so both sides are the
  -- same record field by field.
  | blockTransfer direction repeating =>
    simp only [plan, Registers.blockTransfer, Registers.rewindIf_eq]
    rfl
  | blockSearch direction repeating =>
    simp only [plan, Registers.blockSearch, Registers.rewindIf_eq]
    rfl
  | blockInput direction repeating =>
    simp only [plan, Registers.blockInput, Registers.rewindIf_eq]
    rfl
  | blockOutput direction repeating =>
    simp only [plan, Registers.blockOutput, Registers.rewindIf_eq]
    rfl
  | _ => rfl

end Operation

end Z80

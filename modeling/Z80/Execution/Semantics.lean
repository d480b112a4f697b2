import Z80.Arithmetic.Decimal
import Z80.Arithmetic.Pair
import Z80.Arithmetic.Shift
import Z80.Execution.Block
import Z80.Execution.Flow
import Z80.Instruction.Operation

/-!
# Semantics of operations

`Operation.plan` gives the plan of every operation. Its registers are those after the fetch: the
refresh counter has counted and the program counter points behind the instruction.
-/

namespace Z80

namespace Operand

/-- The address of an operand in memory. -/
def address (o : Operand) (d : Int8) (k : Registers) : UInt16 :=
  match o with
  | .register _ => 0
  | .atHL => k.hl
  | .atIndex x => displaced (k.index x) d

/-- Reads an operand; `next` is given the byte. -/
def read (o : Operand) (d : Int8) (k : Registers) (next : UInt8 → Effect) : Plan :=
  match o with
  | .register r => .done (next (k.byte r))
  | .atHL | .atIndex _ => .readByte (o.address d k) next

/-- Writes an operand, after everything else that happens to the registers `k`. -/
def write (o : Operand) (d : Int8) (k : Registers) (v : UInt8) : Effect :=
  match o with
  | .register r => { registers := k.setByte r v }
  | .atHL | .atIndex _ =>
    { registers := k, store := .byte (o.address d k) v, address := o.address d k }

/-- The byte whose bits 5 and 3 show after a test of `v`: the byte itself if it is in a register,
the high byte of the address latch for memory at HL, and that of the address for indexed
memory. -/
def testSource (o : Operand) (d : Int8) (k : Registers) (v : UInt8) : UInt8 :=
  match o with
  | .register _ => v
  | .atHL => high k.wz
  | .atIndex _ => high (o.address d k)

end Operand

/-- The address that a pointer stands for. -/
def Pointer.address (p : Pointer) (immediate : UInt16) (k : Registers) : UInt16 :=
  match p with
  | .bc => k.bc
  | .de => k.de
  | .direct => immediate

namespace Registers

/-- Writes a register if one is given. -/
def setByteIf (k : Registers) (r : Option ByteRegister) (v : UInt8) : Registers :=
  match r with
  | none => k
  | some r => k.setByte r v

/-- Writes the accumulator and the flags. -/
def setResult (k : Registers) (result : Result) : Registers :=
  { k with a := result.value, f := result.flags }

/-- Copies a byte of the interrupt system to the accumulator; the saved interrupt enable shows
as parity. -/
def inspect (k : Registers) (v : UInt8) : Registers :=
  k.setResult { value := v, flags := { Flags.ofValue v with p := k.iff2, c := k.f.c } }

/-- Replaces the low digit of the accumulator. -/
def setLowDigit (k : Registers) (digit : UInt8) : Registers :=
  let a := k.a / 16 * 16 + digit
  k.setResult { value := a, flags := { Flags.ofParity a with c := k.f.c } }

/-- Complements the accumulator. -/
def complement (k : Registers) : Registers :=
  k.setResult { value := ~~~k.a, flags := { k.f.copyBits (~~~k.a) with h := true, n := true } }

/-- Sets or clears the carry flag, with the given half carry. -/
def setCarry (k : Registers) (half carry : Bool) : Registers :=
  { k with f := { k.f.copyBits k.a with h := half, n := false, c := carry } }

end Registers

/-- The plan of an operation with the displacement `d` and an immediate value. -/
def Operation.plan (op : Operation) (d : Int8) (immediate : UInt16) (k : Registers) : Plan :=
  match op with
  | .nop | .prefixByte | .undefined => .done { registers := k }
  | .halt => .done { registers := { k with halted := true } }
  | .disableInterrupts => .done { registers := { k with iff1 := false, iff2 := false } }
  | .enableInterrupts => .done { registers := { k with iff1 := true, iff2 := true } }
  | .setMode mode => .done { registers := { k with im := mode } }
  | .exchangeAF => .done { registers := k.exchangeAF }
  | .exchangeMain => .done { registers := k.exchangeMain }
  | .exchangeDEHL => .done { registers := k.exchangeDEHL }
  | .exchangeTop p =>
    .readWord k.sp fun v =>
      { registers := k.setPair p v, store := .word k.sp (k.pair p), pair := v }
  | .load target source =>
    let place := if source.isIndexed then source else target
    source.read d k fun v => { target.write d k v with address := place.address d k }
  | .loadImmediate target => .done (target.write d k (low immediate))
  | .loadAccumulator source =>
    let address := source.address immediate k
    .readByte address fun v => { registers := { k with a := v }, address }
  | .storeAccumulator target =>
    let address := target.address immediate k
    .done { registers := k, store := .byte address k.a, address }
  | .setInterruptPage => .done { registers := { k with i := k.a } }
  | .setRefresh => .done { registers := { k with r := k.a } }
  | .getInterruptPage => .done { registers := k.inspect k.i }
  | .getRefresh => .done { registers := k.inspect k.r }
  | .loadPairImmediate p => .done { registers := k.setPair p immediate }
  | .loadPair p =>
    .readWord immediate fun v => { registers := k.setPair p v, address := immediate }
  | .storePair p =>
    .done { registers := k, store := .word immediate (k.pair p), address := immediate }
  | .loadStackPointer p => .done { registers := { k with sp := k.pair p } }
  | .push p => .done (k.push (k.pair p))
  | .pop p => k.pop fun v rest => { registers := rest.setPair p v }
  | .increment o =>
    o.read d k fun v =>
      let result := Arithmetic.increment v k.f.c
      o.write d { k with f := result.flags } result.value
  | .decrement o =>
    o.read d k fun v =>
      let result := Arithmetic.decrement v k.f.c
      o.write d { k with f := result.flags } result.value
  | .combine operator source =>
    source.read d k fun v =>
      { registers := k.setResult (operator.apply k.a v k.f.c), address := source.address d k }
  | .combineImmediate operator =>
    .done { registers := k.setResult (operator.apply k.a (low immediate) k.f.c) }
  | .negate => .done { registers := k.setResult (Arithmetic.sub 0 k.a false) }
  | .decimalAdjust => .done { registers := k.setResult (Arithmetic.decimalAdjust k.a k.f) }
  | .complement => .done { registers := k.complement }
  | .setCarry => .done { registers := k.setCarry false true }
  | .complementCarry => .done { registers := k.setCarry k.f.c (!k.f.c) }
  | .incrementPair p => .done { registers := k.setPair p (k.pair p + 1) }
  | .decrementPair p => .done { registers := k.setPair p (k.pair p - 1) }
  | .addPair target source =>
    let result := Arithmetic.addPair (k.pair target) (k.pair source) k.f
    .done
      { registers := { k.setPair target result.value with f := result.flags }
        pair := k.pair target }
  | .addPairCarry source =>
    let result := Arithmetic.addPairCarry k.hl (k.pair source) k.f.c
    .done { registers := { k.setHL result.value with f := result.flags }, pair := k.hl }
  | .subPairCarry source =>
    let result := Arithmetic.subPairCarry k.hl (k.pair source) k.f.c
    .done { registers := { k.setHL result.value with f := result.flags }, pair := k.hl }
  | .shiftAccumulator s =>
    .done { registers := k.setResult ⟨s.value k.a k.f.c, s.accumulatorFlags k.a k.f⟩ }
  | .shift s o copy =>
    o.read d k fun v =>
      let result := s.apply v k.f.c
      o.write d { k.setByteIf copy result.value with f := result.flags } result.value
  | .testBit n o =>
    o.read d k fun v =>
      { registers := { k with f := Arithmetic.testBit n v (o.testSource d k v) k.f.c }
        address := o.address d k }
  | .resetBit n o copy =>
    o.read d k fun v =>
      let value := Arithmetic.resetBit n v
      o.write d (k.setByteIf copy value) value
  | .setBit n o copy =>
    o.read d k fun v =>
      let value := Arithmetic.setBit n v
      o.write d (k.setByteIf copy value) value
  | .rotateDigitsRight =>
    .readByte k.hl fun v =>
      { registers := k.setLowDigit (v % 16)
        store := .byte k.hl (k.a % 16 * 16 + v / 16)
        pair := k.hl }
  | .rotateDigitsLeft =>
    .readByte k.hl fun v =>
      { registers := k.setLowDigit (v / 16)
        store := .byte k.hl (v % 16 * 16 + k.a % 16)
        pair := k.hl }
  | .jump => .done (k.jump immediate)
  | .jumpIf condition => .done (k.jumpIf immediate (condition.holds k.f))
  | .jumpTo p => .done { registers := { k with pc := k.pair p } }
  | .jumpRelative => .done (k.jumpRelativeIf (low immediate) true)
  | .jumpRelativeIf condition =>
    .done (k.jumpRelativeIf (low immediate) (condition.holds k.f))
  | .countAndJump =>
    let left := k.b - 1
    .done ({ k with b := left }.jumpRelativeIf (low immediate) (left != 0))
  | .call => .done (k.call immediate)
  | .callIf condition => .done (k.callIf immediate (condition.holds k.f))
  | .ret => k.ret
  | .retIf condition => if condition.holds k.f then k.ret else .done { registers := k }
  | .retInterrupt => { k with iff1 := k.iff2 }.ret
  | .restart target => .done (k.call target)
  | .inputAccumulator =>
    let port := word k.a (low immediate)
    .readPort port fun v => { registers := { k with a := v }, address := port }
  | .outputAccumulator =>
    .done
      { registers := k
        store := .port (word k.a (low immediate)) k.a
        address := (low immediate).toUInt16 }
  | .input target =>
    .readPort k.bc fun v =>
      { registers := { k.setByteIf target v with f := { Flags.ofParity v with c := k.f.c } }
        pair := k.bc }
  | .output source =>
    .done
      { registers := k
        store := .port k.bc (match source with | none => 0 | some r => k.byte r)
        pair := k.bc }
  | .blockTransfer direction repeating => k.blockTransfer direction repeating
  | .blockSearch direction repeating => k.blockSearch direction repeating
  | .blockInput direction repeating => k.blockInput direction repeating
  | .blockOutput direction repeating => k.blockOutput direction repeating

end Z80

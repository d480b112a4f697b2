import Z80.Instruction.Operation

/-!
# Opcode pages

An opcode is a byte with three fields: `x` (bits 7 and 6), `y` (bits 5 to 3) and `z` (bits 2 to
0). What it stands for depends on the prefix bytes before it, which select a page. The pages
reached through an index prefix are those without it, with an index register in the place of HL.
-/

namespace Z80

/-- The pages of opcodes. -/
inductive Page
  /-- Opcodes without a prefix. -/
  | main
  /-- A prefix byte that stands alone and acts as an opcode of its own. -/
  | lone
  /-- Shifts and single bits, behind CB. -/
  | bits
  /-- Further opcodes, behind ED. -/
  | extended
  /-- Opcodes without a prefix, with an index register, behind DD or FD. -/
  | indexed (x : Index)
  /-- Shifts and single bits of indexed memory, behind DD CB or FD CB. -/
  | indexedBits (x : Index)
  deriving DecidableEq

/-- Bits 7 and 6 of an opcode. -/
def opcodeX (op : UInt8) : Fin 4 :=
  ⟨op.toNat / 64, by have := op.toNat_lt; omega⟩

/-- Bits 5 to 3 of an opcode. -/
def opcodeY (op : UInt8) : Fin 8 :=
  ⟨op.toNat / 8 % 8, by omega⟩

/-- Bits 2 to 0 of an opcode. -/
def opcodeZ (op : UInt8) : Fin 8 :=
  ⟨op.toNat % 8, by omega⟩

/-! ## Fields as operands -/

/-- The register for a three-bit code; code 6 is not a register. With an index register, H and
L name its halves. -/
def registerOfCode? (x : Option Index) (code : Fin 8) : Option ByteRegister :=
  match code with
  | 0 => some .b
  | 1 => some .c
  | 2 => some .d
  | 3 => some .e
  | 4 => some (match x with | none => .h | some x => .indexHigh x)
  | 5 => some (match x with | none => .l | some x => .indexLow x)
  | 6 => none
  | 7 => some .a

/-- The memory operand: at HL, or at a distance from an index register. -/
def memoryOperand (x : Option Index) : Operand :=
  match x with
  | none => .atHL
  | some x => .atIndex x

/-- The operand for a three-bit code, where code 6 is memory. -/
def operandOfCode (x : Option Index) (code : Fin 8) : Operand :=
  match registerOfCode? x code with
  | some r => .register r
  | none => memoryOperand x

/-- The pair that takes the place of HL. -/
def pairHL (x : Option Index) : Pair :=
  match x with
  | none => .hl
  | some x => .index x

/-- The pair for bits 5 and 4 of the opcode. -/
def pairOfCode (x : Option Index) (y : Fin 8) : Pair :=
  match y with
  | 0 | 1 => .bc
  | 2 | 3 => .de
  | 4 | 5 => pairHL x
  | 6 | 7 => .sp

/-- The pair for bits 5 and 4 of the opcode where AF is in the place of the stack pointer. -/
def stackPairOfCode (x : Option Index) (y : Fin 8) : Pair :=
  match y with
  | 0 | 1 => .bc
  | 2 | 3 => .de
  | 4 | 5 => pairHL x
  | 6 | 7 => .af

/-- The condition for a three-bit code. -/
def conditionOfCode (code : Fin 8) : Condition :=
  match code with
  | 0 => .nz
  | 1 => .z
  | 2 => .nc
  | 3 => .c
  | 4 => .po
  | 5 => .pe
  | 6 => .p
  | 7 => .m

/-- The combination for a three-bit code. -/
def combinationOfCode (code : Fin 8) : Combination :=
  match code with
  | 0 => .add
  | 1 => .addCarry
  | 2 => .sub
  | 3 => .subCarry
  | 4 => .and
  | 5 => .xor
  | 6 => .or
  | 7 => .compare

/-- The shift for a three-bit code. -/
def shiftOfCode (code : Fin 8) : Shift :=
  match code with
  | 0 => .rotateLeft
  | 1 => .rotateRight
  | 2 => .throughLeft
  | 3 => .throughRight
  | 4 => .arithmeticLeft
  | 5 => .arithmeticRight
  | 6 => .onesLeft
  | 7 => .logicalRight

/-! ## The pages -/

/-- Main page, `x = 0`: relative jumps, pairs, counting, immediate bytes, the accumulator. -/
def mainQuarter0 (x : Option Index) (y z : Fin 8) : Operation :=
  match z with
  | 0 =>
    match y with
    | 0 => .nop
    | 1 => .exchangeAF
    | 2 => .countAndJump
    | 3 => .jumpRelative
    | 4 => .jumpRelativeIf .nz
    | 5 => .jumpRelativeIf .z
    | 6 => .jumpRelativeIf .nc
    | 7 => .jumpRelativeIf .c
  | 1 =>
    match y with
    | 0 | 2 | 4 | 6 => .loadPairImmediate (pairOfCode x y)
    | 1 | 3 | 5 | 7 => .addPair (pairHL x) (pairOfCode x y)
  | 2 =>
    match y with
    | 0 => .storeAccumulator .bc
    | 1 => .loadAccumulator .bc
    | 2 => .storeAccumulator .de
    | 3 => .loadAccumulator .de
    | 4 => .storePair (pairHL x)
    | 5 => .loadPair (pairHL x)
    | 6 => .storeAccumulator .direct
    | 7 => .loadAccumulator .direct
  | 3 =>
    match y with
    | 0 | 2 | 4 | 6 => .incrementPair (pairOfCode x y)
    | 1 | 3 | 5 | 7 => .decrementPair (pairOfCode x y)
  | 4 => .increment (operandOfCode x y)
  | 5 => .decrement (operandOfCode x y)
  | 6 => .loadImmediate (operandOfCode x y)
  | 7 =>
    match y with
    | 0 => .shiftAccumulator .rotateLeft
    | 1 => .shiftAccumulator .rotateRight
    | 2 => .shiftAccumulator .throughLeft
    | 3 => .shiftAccumulator .throughRight
    | 4 => .decimalAdjust
    | 5 => .complement
    | 6 => .setCarry
    | 7 => .complementCarry

/-- Main page, `x = 1`: copies of bytes. Beside a memory operand, H and L are themselves also
behind an index prefix. -/
def mainQuarter1 (x : Option Index) (y z : Fin 8) : Operation :=
  match registerOfCode? none y, registerOfCode? none z with
  | none, none => .halt
  | none, some source => .load (memoryOperand x) (.register source)
  | some target, none => .load (.register target) (memoryOperand x)
  | some _, some _ => .load (operandOfCode x y) (operandOfCode x z)

/-- Main page, `x = 3`: jumps, calls, the stack, ports, exchanges, immediate combinations. The
four prefix bytes have no meaning of their own here and are never looked up. -/
def mainQuarter3 (x : Option Index) (y z : Fin 8) : Operation :=
  match z with
  | 0 => .retIf (conditionOfCode y)
  | 1 =>
    match y with
    | 0 | 2 | 4 | 6 => .pop (stackPairOfCode x y)
    | 1 => .ret
    | 3 => .exchangeMain
    | 5 => .jumpTo (pairHL x)
    | 7 => .loadStackPointer (pairHL x)
  | 2 => .jumpIf (conditionOfCode y)
  | 3 =>
    match y with
    | 0 => .jump
    | 1 => .nop
    | 2 => .outputAccumulator
    | 3 => .inputAccumulator
    | 4 => .exchangeTop (pairHL x)
    | 5 => .exchangeDEHL
    | 6 => .disableInterrupts
    | 7 => .enableInterrupts
  | 4 => .callIf (conditionOfCode y)
  | 5 =>
    match y with
    | 0 | 2 | 4 | 6 => .push (stackPairOfCode x y)
    | 1 => .call
    | 3 | 5 | 7 => .nop
  | 6 => .combineImmediate (combinationOfCode y)
  | 7 => .restart (UInt16.ofNat (y.val * 8))

/-- The main page, with an index register in the place of HL if one is given. -/
def mainOperation (x : Option Index) (op : UInt8) : Operation :=
  let y := opcodeY op
  let z := opcodeZ op
  match opcodeX op with
  | 0 => mainQuarter0 x y z
  | 1 => mainQuarter1 x y z
  | 2 => .combine (combinationOfCode y) (operandOfCode x z)
  | 3 => mainQuarter3 x y z

/-- The page of shifts and single bits, on an operand whose result may also be copied. -/
def bitsOperation (o : Operand) (copy : Option ByteRegister) (op : UInt8) : Operation :=
  let y := opcodeY op
  match opcodeX op with
  | 0 => .shift (shiftOfCode y) o copy
  | 1 => .testBit y o
  | 2 => .resetBit y o copy
  | 3 => .setBit y o copy

/-- Extended page, `x = 1`: ports at BC, words, interrupt state, digit rotation. -/
def extendedQuarter1 (y z : Fin 8) : Operation :=
  match z with
  | 0 => .input (registerOfCode? none y)
  | 1 => .output (registerOfCode? none y)
  | 2 =>
    match y with
    | 0 | 2 | 4 | 6 => .subPairCarry (pairOfCode none y)
    | 1 | 3 | 5 | 7 => .addPairCarry (pairOfCode none y)
  | 3 =>
    match y with
    | 0 | 2 | 4 | 6 => .storePair (pairOfCode none y)
    | 1 | 3 | 5 | 7 => .loadPair (pairOfCode none y)
  | 4 => .negate
  | 5 => .retInterrupt
  | 6 =>
    match y with
    | 0 | 1 | 4 | 5 => .setMode 0
    | 2 | 6 => .setMode 1
    | 3 | 7 => .setMode 2
  | 7 =>
    match y with
    | 0 => .setInterruptPage
    | 1 => .setRefresh
    | 2 => .getInterruptPage
    | 3 => .getRefresh
    | 4 => .rotateDigitsRight
    | 5 => .rotateDigitsLeft
    | 6 | 7 => .undefined

/-- A block operation in the direction and with the repetition that bits 4 and 3 of the opcode
give. -/
def blockOfCode (make : Direction → Bool → Operation) (y : Fin 8) : Operation :=
  match y with
  | 4 => make .up false
  | 5 => make .down false
  | 6 => make .up true
  | 7 => make .down true
  | 0 | 1 | 2 | 3 => .undefined

/-- Extended page, `x = 2`: block operations. -/
def extendedQuarter2 (y z : Fin 8) : Operation :=
  match z with
  | 0 => blockOfCode .blockTransfer y
  | 1 => blockOfCode .blockSearch y
  | 2 => blockOfCode .blockInput y
  | 3 => blockOfCode .blockOutput y
  | 4 | 5 | 6 | 7 => .undefined

/-- The extended page; outside its two middle quarters nothing is defined. -/
def extendedOperation (op : UInt8) : Operation :=
  match opcodeX op with
  | 1 => extendedQuarter1 (opcodeY op) (opcodeZ op)
  | 2 => extendedQuarter2 (opcodeY op) (opcodeZ op)
  | 0 | 3 => .undefined

namespace Page

/-- The operation that an opcode stands for on a page. On the page of indexed memory bits, an
opcode that names a register also copies the result there. -/
def operation (page : Page) (op : UInt8) : Operation :=
  match page with
  | .main => mainOperation none op
  | .lone => .prefixByte
  | .bits => bitsOperation (operandOfCode none (opcodeZ op)) none op
  | .extended => extendedOperation op
  | .indexed x => mainOperation (some x) op
  | .indexedBits x => bitsOperation (.atIndex x) (registerOfCode? none (opcodeZ op)) op

/-- The number of prefix bytes. -/
def prefixLength : Page → Nat
  | .main | .lone => 0
  | .bits | .extended | .indexed _ => 1
  | .indexedBits _ => 2

/-- The number of opcode fetches, each of which counts the refresh counter up. The opcode of
indexed memory bits is not fetched as one. -/
def fetches : Page → Nat
  | .main | .lone => 1
  | .bits | .extended | .indexed _ | .indexedBits _ => 2

/-- The index register that the prefix selects. -/
def index : Page → Option Index
  | .indexed x | .indexedBits x => some x
  | .main | .lone | .bits | .extended => none

end Page

end Z80

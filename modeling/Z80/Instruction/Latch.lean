import Z80.Config
import Z80.Instruction.Operation

/-!
# The address latch

Instructions that form an address leave a trace of it in the internal latch WZ. Each operation
has one rule for what it leaves; the rule is applied when the operation is over, to the values
that the operation noted.
-/

namespace Z80

/-- What an operation leaves in the address latch. -/
inductive LatchRule
  /-- The latch keeps its value. -/
  | unchanged
  /-- The address after the operand's. -/
  | addressPlusOne
  /-- The low byte of the address after the operand's, under the accumulator or zero. -/
  | accumulatorMix
  /-- One more than a register pair. -/
  | pairPlusOne
  /-- The new value of a register pair. -/
  | pairValue
  /-- The target of a jump, made or not. -/
  | target
  /-- The target of a jump that is made. -/
  | targetIfTaken
  /-- The next higher or lower value of the latch. -/
  | count (k : Direction)
  /-- As `count` when the search is over, and the second byte of the instruction while it
  repeats. -/
  | searchRepeat (k : Direction)
  /-- The second byte of the instruction while a transfer repeats. -/
  | transferRepeat
  /-- The word above or below a register pair. -/
  | portBlock (k : Direction)
  /-- The address of indexed memory. -/
  | indexedAddress
  deriving DecidableEq

/-- The values that the rules refer to. -/
structure LatchInputs where
  /-- The address of the operand, the port, or the target of a jump. -/
  address : UInt16 := 0
  /-- The accumulator before the operation. -/
  a : UInt8 := 0
  /-- The register pair of the rule. -/
  pair : UInt16 := 0
  /-- The address of the first byte of the instruction. -/
  pc : UInt16 := 0
  /-- Whether a jump is made or a block operation repeats. -/
  taken : Bool := false
  deriving DecidableEq

/-- The high byte that a store of the accumulator leaves in the latch. -/
def Revision.storeHigh (k : Revision) (a : UInt8) : UInt8 :=
  match k with
  | .nmos => a
  | .bm1 => 0

/-- The value of the latch after an operation, where `current` is its value before. -/
def LatchRule.apply (rule : LatchRule) (revision : Revision) (inputs : LatchInputs)
    (current : UInt16) : UInt16 :=
  match rule with
  | .unchanged => current
  | .addressPlusOne => inputs.address + 1
  | .accumulatorMix => word (revision.storeHigh inputs.a) (low (inputs.address + 1))
  | .pairPlusOne => inputs.pair + 1
  | .pairValue => inputs.pair
  | .target => inputs.address
  | .targetIfTaken => if inputs.taken then inputs.address else current
  | .count k => k.step current
  | .searchRepeat k => if inputs.taken then inputs.pc + 1 else k.step current
  | .transferRepeat => if inputs.taken then inputs.pc + 1 else current
  | .portBlock k => k.step inputs.pair
  | .indexedAddress => inputs.address

namespace Operation

/-- The rule of an operation that does not work on indexed memory. -/
def plainLatchRule : Operation → LatchRule
  | .storeAccumulator _ | .outputAccumulator => .accumulatorMix
  | .loadAccumulator _ | .loadPair _ | .storePair _ | .inputAccumulator => .addressPlusOne
  | .addPair _ _ | .addPairCarry _ | .subPairCarry _ | .rotateDigitsRight | .rotateDigitsLeft
  | .input _ | .output _ => .pairPlusOne
  | .exchangeTop _ => .pairValue
  | .jump | .jumpIf _ | .call | .callIf _ | .restart _ => .target
  | .jumpRelative | .jumpRelativeIf _ | .countAndJump | .ret | .retIf _ | .retInterrupt =>
    .targetIfTaken
  | .blockTransfer _ repeating => if repeating then .transferRepeat else .unchanged
  | .blockSearch k repeating => if repeating then .searchRepeat k else .count k
  | .blockInput k _ | .blockOutput k _ => .portBlock k
  | _ => .unchanged

/-- The rule of an operation. -/
def latchRule (op : Operation) : LatchRule :=
  if op.isIndexed then .indexedAddress else op.plainLatchRule

end Operation

end Z80

import Z80.Instruction.Operation

/-!
# Duration of operations

The T-states of an operation are counted from its last opcode fetch on, so that they do not
depend on the prefix before it; every earlier fetch takes four more. Some operations take longer
when a jump is made or when a block operation is going to repeat.
-/

namespace Z80

/-- The T-states of an operand: `r` in a register, `m` in memory at HL, `d` in memory at a
distance from an index register. -/
def Operand.duration (o : Operand) (r m d : Nat) : Nat :=
  match o with
  | .register _ => r
  | .atHL => m
  | .atIndex _ => d

/-- An operand's duration is bounded below by what bounds all three choices. -/
theorem Operand.le_duration (o : Operand) {n r m d : Nat} (hr : n ≤ r) (hm : n ≤ m)
    (hd : n ≤ d) : n ≤ o.duration r m d := by
  cases o with
  | register _ => exact hr
  | atHL => exact hm
  | atIndex _ => exact hd

/-- The T-states of a copy between the accumulator and the memory at a pointer. -/
def Pointer.duration : Pointer → Nat
  | .bc | .de => 7
  | .direct => 13

namespace Operation

/-- The T-states from the last opcode fetch on, if no jump is made and nothing repeats. -/
def duration : Operation → Nat
  | .nop | .prefixByte | .undefined | .halt | .disableInterrupts | .enableInterrupts
  | .setMode _ | .exchangeAF | .exchangeMain | .exchangeDEHL => 4
  | .exchangeTop _ => 19
  | .load target source => max (target.duration 4 7 15) (source.duration 4 7 15)
  | .loadImmediate o => o.duration 7 10 15
  | .loadAccumulator p | .storeAccumulator p => p.duration
  | .setInterruptPage | .setRefresh | .getInterruptPage | .getRefresh => 5
  | .loadPairImmediate _ => 10
  | .loadPair _ | .storePair _ => 16
  | .loadStackPointer _ => 6
  | .push _ => 11
  | .pop _ => 10
  | .increment o | .decrement o => o.duration 4 11 19
  | .combine _ o => o.duration 4 7 15
  | .combineImmediate _ => 7
  | .negate | .decimalAdjust | .complement | .setCarry | .complementCarry => 4
  | .incrementPair _ | .decrementPair _ => 6
  | .addPair _ _ | .addPairCarry _ | .subPairCarry _ => 11
  | .shiftAccumulator _ => 4
  | .shift _ o _ | .resetBit _ o _ | .setBit _ o _ => o.duration 4 11 19
  | .testBit _ o => o.duration 4 8 16
  | .rotateDigitsRight | .rotateDigitsLeft => 14
  | .jump | .jumpIf _ => 10
  | .jumpTo _ => 4
  | .jumpRelative => 12
  | .jumpRelativeIf _ => 7
  | .countAndJump => 8
  | .call => 17
  | .callIf _ => 10
  | .ret | .retInterrupt => 10
  | .retIf _ => 5
  | .restart _ => 11
  | .inputAccumulator | .outputAccumulator => 11
  | .input _ | .output _ => 8
  | .blockTransfer _ _ | .blockSearch _ _ | .blockInput _ _ | .blockOutput _ _ => 12

/-- The T-states added when a conditional jump is made or a block operation repeats. -/
def extraDuration : Operation → Nat
  | .countAndJump | .jumpRelativeIf _ => 5
  | .retIf _ => 6
  | .callIf _ => 7
  | .blockTransfer _ repeating | .blockSearch _ repeating | .blockInput _ repeating
  | .blockOutput _ repeating => if repeating then 5 else 0
  | _ => 0

/-- No operation is shorter than an opcode fetch. -/
theorem four_le_duration (op : Operation) : 4 ≤ op.duration := by
  cases op with
  | load target source =>
    have h : 4 ≤ target.duration 4 7 15 :=
      target.le_duration (by decide) (by decide) (by decide)
    exact Nat.le_trans h (Nat.le_max_left _ _)
  | loadAccumulator p => cases p <;> decide
  | storeAccumulator p => cases p <;> decide
  | loadImmediate o | increment o | decrement o | combine _ o | shift _ o _ | testBit _ o
  | resetBit _ o _ | setBit _ o _ => exact o.le_duration (by decide) (by decide) (by decide)
  | _ => exact Nat.le_of_ble_eq_true rfl

end Operation

end Z80

import Z80.Proofs.Encoding
import Z80.Proofs.Step

/-!
# Which instructions use the stack

An instruction puts one word on the stack, takes one from it, or leaves it alone.  This file states, opcode by
opcode, which of these it does and which word it is about: the pair that the opcode names, the address behind
the instruction of a call or restart, or the program counter of a return.

The table stands by itself, as that of the next address does: `mainStackUse` and `extendedStackUse` give the
use of each opcode, and `StackUse.pushed?`, `StackUse.pops` and `StackUse.received` what it means.
`Operation.stackUse` lies between the table and the operations: `tabulates_stackUse` compares the two, and
`Operation.outcome_of_pushed?` and `Operation.outcome_of_pops` follow an operation to what it stores and to
the stack pointer that it leaves.
-/

namespace Z80

/-! ## The table -/

/-- What an instruction does to the stack. -/
inductive StackUse
  /-- Nothing. -/
  | nothing
  /-- Puts a register pair on it. -/
  | push (p : Pair)
  /-- Takes a register pair from it. -/
  | pop (p : Pair)
  /-- Puts the address behind the instruction on it. -/
  | call
  /-- Puts the address behind the instruction on it, on a condition. -/
  | callIf (condition : Condition)
  /-- Takes the program counter from it. -/
  | ret
  /-- Takes the program counter from it, on a condition. -/
  | retIf (condition : Condition)
  deriving DecidableEq

namespace StackUse

variable (use : StackUse) (k : Registers)

/-- The word that is put on the stack, if one is, where `next` is the address behind the instruction. -/
def pushed? (next : UInt16) : Option UInt16 :=
  match use with
  | .push p => some (k.pair p)
  | .call => some next
  | .callIf condition => if condition.holds k.f then some next else none
  | .nothing | .pop _ | .ret | .retIf _ => none

/-- Whether a word is taken from the stack. -/
def pops : Bool :=
  match use with
  | .pop _ | .ret => true
  | .retIf condition => condition.holds k.f
  | .nothing | .push _ | .call | .callIf _ => false

/-- Where a word that has been taken from the stack is found: in the pair that is named, or in the program
counter. -/
def received : UInt16 :=
  match use with
  | .pop p => k.pair p
  | _ => k.pc

end StackUse

/-- How the opcodes of the main page use the stack, with an index register in the place of HL if one is
given. -/
def mainStackUse (x : Option Index) (op : UInt8) : StackUse :=
  match op with
  | 0xC5 => .push .bc
  | 0xD5 => .push .de
  | 0xE5 => .push (pairHL x)
  | 0xF5 => .push .af
  | 0xC1 => .pop .bc
  | 0xD1 => .pop .de
  | 0xE1 => .pop (pairHL x)
  | 0xF1 => .pop .af
  | 0xCD => .call
  | 0xC7 | 0xCF | 0xD7 | 0xDF | 0xE7 | 0xEF | 0xF7 | 0xFF => .call
  | 0xC4 => .callIf .nz
  | 0xCC => .callIf .z
  | 0xD4 => .callIf .nc
  | 0xDC => .callIf .c
  | 0xE4 => .callIf .po
  | 0xEC => .callIf .pe
  | 0xF4 => .callIf .p
  | 0xFC => .callIf .m
  | 0xC9 => .ret
  | 0xC0 => .retIf .nz
  | 0xC8 => .retIf .z
  | 0xD0 => .retIf .nc
  | 0xD8 => .retIf .c
  | 0xE0 => .retIf .po
  | 0xE8 => .retIf .pe
  | 0xF0 => .retIf .p
  | 0xF8 => .retIf .m
  | _ => .nothing

/-- How the opcodes of the extended page use the stack: the returns from an interrupt. -/
def extendedStackUse (op : UInt8) : StackUse :=
  match op with
  | 0x45 | 0x4D | 0x55 | 0x5D | 0x65 | 0x6D | 0x75 | 0x7D => .ret
  | _ => .nothing

/-- How the instruction with the given first two bytes uses the stack.  Behind an index prefix, the other
prefixes do not use it. -/
def stackUseOf (first second : UInt8) : StackUse :=
  match first with
  | 0xCB => .nothing
  | 0xED => extendedStackUse second
  | 0xDD => mainStackUse (some .ix) second
  | 0xFD => mainStackUse (some .iy) second
  | op => mainStackUse none op

/-! ## The uses of operations -/

/-- How an operation uses the stack. -/
def Operation.stackUse : Operation → StackUse
  | .push p => .push p
  | .pop p => .pop p
  | .call | .restart _ => .call
  | .callIf condition => .callIf condition
  | .ret | .retInterrupt => .ret
  | .retIf condition => .retIf condition
  | _ => .nothing

set_option maxRecDepth 4000 in
/-- The operations of the main page use the stack as the table says. -/
lemma stackUse_mainOperation (x : Option Index) (op : UInt8) :
    (mainOperation x op).stackUse = mainStackUse x op := by
  revert op
  refine forall_byte ?_
  rcases x with _ | _ | _ <;> decide +kernel

set_option maxRecDepth 4000 in
lemma stackUse_extendedOperation (op : UInt8) :
    (extendedOperation op).stackUse = extendedStackUse op := by
  revert op
  exact forall_byte (by decide +kernel)

/-- No operation on single bytes uses the stack. -/
lemma stackUse_bitsOperation (o : Operand) (copy : Option ByteRegister) (op : UInt8) :
    (bitsOperation o copy op).stackUse = .nothing := by
  simp only [bitsOperation]
  split <;> rfl

lemma stackUseOf_index (x : Index) (second : UInt8) :
    stackUseOf x.prefixByte second = mainStackUse (some x) second := by
  cases x <;> rfl

/-- All operations use the stack as the table says. -/
lemma tabulates_stackUse :
    Tabulates (fun first second _ => stackUseOf first second) Operation.stackUse where
  main hfirst _ _ :=
    (stackUse_mainOperation none _).trans (match_of_main _ _ _ _ _ _ hfirst).symm
  bits _ _ := stackUse_bitsOperation _ _ _
  extended _ _ := stackUse_extendedOperation _
  indexed x _ _ _ := by
    rw [stackUseOf_index]
    exact stackUse_mainOperation (some x) _
  indexedBits x _ := by
    rw [stackUseOf_index]
    exact stackUse_bitsOperation _ _ _
  lone x _ hsecond _ := by
    rw [stackUseOf_index]
    rcases hsecond with rfl | rfl | rfl <;> rfl

/-- An instruction uses the stack as the table says. -/
lemma Encoding.stackUse_eq {code : Nat → UInt8} {i : Instruction} (h : Encoding code i) :
    i.operation.stackUse = stackUseOf (code 0) (code 1) :=
  h.eq_table tabulates_stackUse

/-- The stack pointer itself is taken from the stack by no opcode of the main page. -/
lemma mainStackUse_ne_pop_sp (x : Option Index) (op : UInt8) : mainStackUse x op ≠ .pop .sp := by
  unfold mainStackUse
  split
  case h_7 => rcases x with _ | _ <;> exact nofun
  all_goals exact nofun

/-- The stack pointer itself is not taken from the stack. -/
lemma stackUseOf_ne_pop_sp (first second : UInt8) : stackUseOf first second ≠ .pop .sp := by
  unfold stackUseOf
  split
  · exact nofun
  · unfold extendedStackUse
    split <;> exact nofun
  all_goals exact mainStackUse_ne_pop_sp _ _

/-! ## Operations and the stack -/

namespace Operation

variable {op : Operation} {k : Registers} (d : Int8) (immediate : UInt16) (board : Board)

/-- An operation that puts a word on the stack stores it and moves the stack pointer. -/
lemma outcome_of_pushed? {v : UInt16} (h : op.stackUse.pushed? k k.pc = some v) :
    ((op.plan d immediate k).outcome board).registers.sp = k.sp - 2 ∧
      ((op.plan d immediate k).outcome board).store = .push k.sp v := by
  cases op with
  | push | call | restart =>
    cases h
    exact ⟨rfl, rfl⟩
  | callIf condition =>
    have hword : (if condition.holds k.f then some k.pc else none) = some v := h
    by_cases htaken : condition.holds k.f = true
    · have hplan : (Operation.callIf condition).plan d immediate k = .done (k.call immediate) :=
        congrArg (fun taken => Plan.done (k.callIf immediate taken)) htaken
      rw [if_pos htaken] at hword
      cases hword
      rw [hplan]
      exact ⟨rfl, rfl⟩
    · rw [if_neg htaken] at hword
      cases hword
  | _ => cases h

/-- An operation that takes a word from the stack moves the stack pointer and stores nothing. -/
lemma outcome_of_pops (h : op.stackUse.pops k = true) (hpair : op.stackUse ≠ .pop .sp) :
    ((op.plan d immediate k).outcome board).registers.sp = k.sp + 2 ∧
      ((op.plan d immediate k).outcome board).store = .nothing ∧
      op.stackUse.received ((op.plan d immediate k).outcome board).registers =
        board.memory.readWord k.sp := by
  cases op with
  | pop p =>
    refine ⟨?_, rfl, Registers.pair_setPair _ p _⟩
    cases p with
    | sp => exact absurd rfl hpair
    | index x => cases x <;> rfl
    | _ => rfl
  | ret | retInterrupt => exact ⟨rfl, rfl, rfl⟩
  | retIf condition =>
    have hplan : (Operation.retIf condition).plan d immediate k = k.ret := if_pos h
    rw [hplan]
    exact ⟨rfl, rfl, rfl⟩
  | _ => cases h

end Operation

namespace StackUse

variable (use : StackUse) (k : Registers)

/-- The fetch moves the refresh counter and the program counter, which no use of the stack looks at. -/
lemma pushed?_fetched (r : UInt8) (pc next : UInt16) :
    use.pushed? { k with r, pc } next = use.pushed? k next := by
  cases use with
  | push p =>
    cases p with
    | index x => cases x <;> rfl
    | _ => rfl
  | _ => rfl

lemma pops_fetched (r : UInt8) (pc : UInt16) : use.pops { k with r, pc } = use.pops k := by
  cases use <;> rfl

/-- The address latch is not where a word from the stack is found. -/
lemma received_wz (wz : UInt16) : use.received { k with wz } = use.received k := by
  cases use with
  | pop p =>
    cases p with
    | index x => cases x <;> rfl
    | _ => rfl
  | _ => rfl

end StackUse

end Z80

import Z80.Proofs.Encoding
import Z80.Proofs.Implicit
import Z80.Proofs.Word

/-!
# The law of the address latch

Every instruction leaves something in the address latch WZ.  This file states what, opcode by
opcode, from the registers and the memory *before* the instruction, and proves that a step leaves
just that.

The table stands by itself: `mainLaw`, `extendedLaw` and `indexedLaw` give the law of each opcode of
the pages, without looking at how instructions are decoded or carried out, and `LatchLaw.value` says
which word a law stands for.  On the other side, an instruction notes an address, a pair and whether
it jumps while it is carried out, and its rule is applied to these notes when it is over.
`Operation.latchLaw` lies between the two: `latch_eq_value` follows the notes of every operation to
the word of its law, and `latchLaw_mainOperation` and its companions compare the laws of all opcodes
with those of the table.
-/

namespace Z80

/-! ## The table -/

/-- What an instruction leaves in the address latch.  Immediate bytes, words and distances are those
that follow the opcode. -/
inductive LatchLaw
  /-- The latch keeps its value. -/
  | kept
  /-- The address after the immediate one. -/
  | immediateNext
  /-- The word after that in a register pair. -/
  | pairNext (p : Pair)
  /-- The low byte of the address after the immediate one, under the byte that a store leaves. -/
  | storeImmediate
  /-- The low byte of the address after that in a register pair, under the byte that a store
  leaves. -/
  | storePair (p : Pair)
  /-- The byte after the immediate one, under the byte that a store leaves. -/
  | portWritten
  /-- The word after that with the accumulator over the immediate byte. -/
  | portRead
  /-- The word on top of the stack. -/
  | top
  /-- The word on top of the stack, on a condition. -/
  | topIf (condition : Condition)
  /-- The address over the immediate distance. -/
  | distance
  /-- The address over the immediate distance, on a condition. -/
  | distanceIf (condition : Condition)
  /-- The address over the immediate distance, unless B counts down to zero. -/
  | distanceCounting
  /-- The immediate address. -/
  | immediate
  /-- A fixed address. -/
  | fixed (target : UInt16)
  /-- The next word in a direction. -/
  | count (k : Direction)
  /-- The second byte of the instruction while the search goes on, and the next word in a direction
  at its end. -/
  | searching (k : Direction)
  /-- The second byte of the instruction while the transfer goes on. -/
  | transferring
  /-- The word next to BC. -/
  | portInput (k : Direction)
  /-- The word next to BC with B counted down. -/
  | portOutput (k : Direction)
  /-- The indexed address. -/
  | indexed (x : Index)
  deriving DecidableEq

/-- The word that a law stands for, where the registers `k` and the memory are those before the
instruction and what follows the opcode starts `start` bytes after the first byte. -/
def LatchLaw.value (law : LatchLaw) (revision : Revision) (k : Registers) (memory : Memory)
    (start : Nat) : UInt16 :=
  let byte := memory.read (k.pc + UInt16.ofNat start)
  let word' := word (memory.read (k.pc + UInt16.ofNat (start + 1))) byte
  let jump := displaced (k.pc + UInt16.ofNat (start + 1)) byte.toInt8
  match law with
  | .kept => k.wz
  | .immediateNext => word' + 1
  | .pairNext p => k.pair p + 1
  | .storeImmediate => word (revision.storeHigh k.a) (low (word' + 1))
  | .storePair p => word (revision.storeHigh k.a) (low (k.pair p + 1))
  | .portWritten => word (revision.storeHigh k.a) (byte + 1)
  | .portRead => word k.a byte + 1
  | .top => memory.readWord k.sp
  | .topIf condition => if condition.holds k.f then memory.readWord k.sp else k.wz
  | .distance => jump
  | .distanceIf condition => if condition.holds k.f then jump else k.wz
  | .distanceCounting => if k.b = 1 then k.wz else jump
  | .immediate => word'
  | .fixed target => target
  | .count d => d.step k.wz
  | .searching d =>
    if k.bc ≠ 1 ∧ k.a ≠ memory.read k.hl then k.pc + 1 else d.step k.wz
  | .transferring => if k.bc ≠ 1 then k.pc + 1 else k.wz
  | .portInput d => d.step k.bc
  | .portOutput d => d.step (word (k.b - 1) k.c)
  | .indexed x => displaced (k.index x) byte.toInt8

/-- The laws of the main page, with an index register in the place of HL if one is given. -/
def mainLaw (x : Option Index) (op : UInt8) : LatchLaw :=
  match op with
  | 0x02 => .storePair .bc
  | 0x12 => .storePair .de
  | 0x32 => .storeImmediate
  | 0x0A => .pairNext .bc
  | 0x1A => .pairNext .de
  | 0x22 | 0x2A | 0x3A => .immediateNext
  | 0x09 | 0x19 | 0x29 | 0x39 => .pairNext (pairHL x)
  | 0x10 => .distanceCounting
  | 0x18 => .distance
  | 0x20 => .distanceIf .nz
  | 0x28 => .distanceIf .z
  | 0x30 => .distanceIf .nc
  | 0x38 => .distanceIf .c
  | 0xC0 => .topIf .nz
  | 0xC8 => .topIf .z
  | 0xD0 => .topIf .nc
  | 0xD8 => .topIf .c
  | 0xE0 => .topIf .po
  | 0xE8 => .topIf .pe
  | 0xF0 => .topIf .p
  | 0xF8 => .topIf .m
  | 0xC9 | 0xE3 => .top
  | 0xC2 | 0xCA | 0xD2 | 0xDA | 0xE2 | 0xEA | 0xF2 | 0xFA | 0xC3 => .immediate
  | 0xC4 | 0xCC | 0xD4 | 0xDC | 0xE4 | 0xEC | 0xF4 | 0xFC | 0xCD => .immediate
  | 0xC7 => .fixed 0x00
  | 0xCF => .fixed 0x08
  | 0xD7 => .fixed 0x10
  | 0xDF => .fixed 0x18
  | 0xE7 => .fixed 0x20
  | 0xEF => .fixed 0x28
  | 0xF7 => .fixed 0x30
  | 0xFF => .fixed 0x38
  | 0xD3 => .portWritten
  | 0xDB => .portRead
  | _ => .kept

/-- The laws of the extended page. -/
def extendedLaw (op : UInt8) : LatchLaw :=
  match op with
  | 0x40 | 0x48 | 0x50 | 0x58 | 0x60 | 0x68 | 0x70 | 0x78 => .pairNext .bc
  | 0x41 | 0x49 | 0x51 | 0x59 | 0x61 | 0x69 | 0x71 | 0x79 => .pairNext .bc
  | 0x42 | 0x4A | 0x52 | 0x5A | 0x62 | 0x6A | 0x72 | 0x7A => .pairNext .hl
  | 0x43 | 0x4B | 0x53 | 0x5B | 0x63 | 0x6B | 0x73 | 0x7B => .immediateNext
  | 0x45 | 0x4D | 0x55 | 0x5D | 0x65 | 0x6D | 0x75 | 0x7D => .top
  | 0x67 | 0x6F => .pairNext .hl
  | 0xA1 => .count .up
  | 0xA9 => .count .down
  | 0xB1 => .searching .up
  | 0xB9 => .searching .down
  | 0xB0 | 0xB8 => .transferring
  | 0xA2 | 0xB2 => .portInput .up
  | 0xAA | 0xBA => .portInput .down
  | 0xA3 | 0xB3 => .portOutput .up
  | 0xAB | 0xBB => .portOutput .down
  | _ => .kept

/-- The laws behind an index prefix, by the byte after it: a second prefix leaves the first one
alone, the prefix of the bit page and the opcodes that use memory form an indexed address, and all
others follow the main page. -/
def indexedLaw (x : Index) (op : UInt8) : LatchLaw :=
  if op = 0xDD ∨ op = 0xFD ∨ op = 0xED then .kept
  else if op = 0xCB ∨ usesMemory op = true then .indexed x
  else mainLaw (some x) op

/-- The law of the instruction whose first two bytes are given, and the distance of what follows
its opcode. -/
def latchLaw (first second : UInt8) : LatchLaw × Nat :=
  match first with
  | 0xCB => (.kept, 2)
  | 0xED => (extendedLaw second, 2)
  | 0xDD => (indexedLaw .ix second, 2)
  | 0xFD => (indexedLaw .iy second, 2)
  | op => (mainLaw none op, 1)

/-- The address latch after the instruction at the program counter of the registers `k`. -/
def latchAfter (revision : Revision) (k : Registers) (memory : Memory) : UInt16 :=
  let law := latchLaw (memory.read k.pc) (memory.read (k.pc + 1))
  law.1.value revision k memory law.2

/-! ## The laws of operations -/

/-- The pointer's word with one added. -/
def Pointer.nextLaw : Pointer → LatchLaw
  | .bc => .pairNext .bc
  | .de => .pairNext .de
  | .direct => .immediateNext

/-- The low byte of the pointer's word with one added, under the byte that a store leaves. -/
def Pointer.storeLaw : Pointer → LatchLaw
  | .bc => .storePair .bc
  | .de => .storePair .de
  | .direct => .storeImmediate

/-- The law of an operation on a byte, which is the indexed address if the byte is there. -/
def Operand.latchLaw : Operand → LatchLaw
  | .register _ | .atHL => .kept
  | .atIndex x => .indexed x

/-- The law of an operation. -/
def Operation.latchLaw : Operation → LatchLaw
  | .load target source => if source.isIndexed then source.latchLaw else target.latchLaw
  | .loadImmediate o | .increment o | .decrement o | .combine _ o | .shift _ o _ | .testBit _ o
  | .resetBit _ o _ | .setBit _ o _ => o.latchLaw
  | .loadAccumulator source => source.nextLaw
  | .storeAccumulator target => target.storeLaw
  | .loadPair _ | .storePair _ => .immediateNext
  | .addPair target _ => .pairNext target
  | .addPairCarry _ | .subPairCarry _ | .rotateDigitsRight | .rotateDigitsLeft => .pairNext .hl
  | .exchangeTop _ | .ret | .retInterrupt => .top
  | .retIf condition => .topIf condition
  | .jumpRelative => .distance
  | .jumpRelativeIf condition => .distanceIf condition
  | .countAndJump => .distanceCounting
  | .jump | .jumpIf _ | .call | .callIf _ => .immediate
  | .restart target => .fixed target
  | .inputAccumulator => .portRead
  | .outputAccumulator => .portWritten
  | .input _ | .output _ => .pairNext .bc
  | .blockTransfer _ repeating => if repeating then .transferring else .kept
  | .blockSearch k repeating => if repeating then .searching k else .count k
  | .blockInput k _ => .portInput k
  | .blockOutput k _ => .portOutput k
  | _ => .kept

set_option maxRecDepth 4000 in
/-- The laws of the main page are those of its operations. -/
lemma latchLaw_mainOperation_none (op : UInt8) (h : isPrefix op = false) :
    (mainOperation none op).latchLaw = mainLaw none op := by
  revert op
  exact forall_byte (by decide +kernel)

set_option maxRecDepth 4000 in
/-- The laws behind an index prefix are those of the operations on the main page with the index
register in the place of HL. -/
lemma latchLaw_mainOperation (x : Index) (op : UInt8) (h : isPrefix op = false) :
    (mainOperation (some x) op).latchLaw = indexedLaw x op := by
  revert op
  refine forall_byte ?_
  cases x <;> decide +kernel

set_option maxRecDepth 4000 in
lemma latchLaw_extendedOperation (op : UInt8) :
    (extendedOperation op).latchLaw = extendedLaw op := by
  revert op
  exact forall_byte (by decide +kernel)

/-- The law of an operation on single bytes is that of its operand. -/
lemma latchLaw_bitsOperation (o : Operand) (copy : Option ByteRegister) (op : UInt8) :
    (bitsOperation o copy op).latchLaw = o.latchLaw := by
  simp only [bitsOperation]
  split <;> rfl

/-- Without an index register, an operand leaves the latch as it is. -/
lemma latchLaw_operandOfCode (code : Fin 8) : (operandOfCode none code).latchLaw = .kept := by
  revert code
  decide

/-- A byte that is no prefix has its law on the main page. -/
lemma latchLaw_of_main {first : UInt8} (h : isPrefix first = false) (second : UInt8) :
    latchLaw first second = (mainLaw none first, 1) :=
  match_of_main _ _ _ _ _ _ h

/-! ## Operations keep the latch

The latch changes only when the rule of the instruction is applied, after the operation is over.
-/

/-- No operation writes the latch. -/
lemma Operation.wz_plan (op : Operation) (d : Int8) (immediate : UInt16) (k : Registers)
    (board : Board) : ((op.plan d immediate k).outcome board).registers.wz = k.wz := by
  refine (congrArg Implicit.wz (op.implicit_plan d immediate k board)).trans ?_
  cases op <;> rfl

/-! ## The notes of an operation -/

/-- What an operation notes for its rule, where `k` are the registers before the instruction. -/
def Effect.notes (e : Effect) (k : Registers) : LatchInputs where
  address := e.address
  a := k.a
  pair := e.pair
  pc := k.pc
  taken := e.taken

/-- A call notes its target, whether it is made or not. -/
@[simp] lemma Registers.address_callIf (k : Registers) (target : UInt16) (taken : Bool) :
    (k.callIf target taken).address = target := by
  cases taken <;> rfl

/-- The notes of an operation that does not work on indexed memory lead to the word of its law. -/
lemma Operation.apply_plainLatchRule (op : Operation) (h : op.isIndexed = false)
    (revision : Revision) (k : Registers) (r : UInt8) (d : Int8) {immediate next : UInt16}
    (board : Board) (start : Nat)
    (himmediate : immediate =
      immediateValue (MemoryBus.codeAt board k.pc) start op.immediateSize)
    (hnext : next = k.pc + UInt16.ofNat (start + op.immediateSize)) :
    op.plainLatchRule.apply revision
        (((op.plan d immediate { k with r, pc := next }).outcome board).notes k) k.wz =
      op.latchLaw.value revision k board.memory start := by
  subst himmediate hnext
  set code := MemoryBus.codeAt board k.pc
  have hbyte : low (immediateValue code start 1) = code start := low_toUInt16 _
  cases op with
  | loadAccumulator pointer => cases pointer <;> rfl
  | storeAccumulator pointer => cases pointer <;> rfl
  | callIf condition => exact Registers.address_callIf _ _ _
  | jumpRelative =>
    show displaced _ (low (immediateValue code start 1)).toInt8 = _
    rw [hbyte]
    rfl
  | jumpRelativeIf condition =>
    show (if condition.holds k.f = true then
      displaced _ (low (immediateValue code start 1)).toInt8 else k.wz) = _
    rw [hbyte]
    rfl
  | countAndJump =>
    -- The jump is made if B is not one, because it is counted down before it is looked at.
    show (if (k.b - 1 != 0) = true then
      displaced _ (low (immediateValue code start 1)).toInt8 else k.wz) = _
    rw [hbyte]
    simp only [bne_iff_ne, ne_eq, byte_sub_one_eq_zero, ite_not]
    rfl
  | retIf condition =>
    show LatchRule.apply .targetIfTaken _ _ _ =
      if condition.holds k.f = true then board.memory.readWord k.sp else k.wz
    by_cases hholds : condition.holds k.f = true
    · rw [plan, if_pos hholds, if_pos hholds]
      rfl
    · rw [plan, if_neg hholds, if_neg hholds]
      rfl
  | inputAccumulator =>
    show word k.a (low (immediateValue code start 1)) + 1 = _
    rw [hbyte]
    rfl
  | outputAccumulator =>
    show word _ (low ((low (immediateValue code start 1)).toUInt16 + 1)) = _
    rw [low_add_one, low_toUInt16, hbyte]
    rfl
  | blockTransfer direction repeating =>
    cases repeating with
    | false => rfl
    | true =>
      show (if (k.bc - 1 != 0) = true then k.pc + 1 else k.wz) = _
      simp only [bne_iff_ne, ne_eq, word_sub_one_eq_zero]
      rfl
  | blockSearch direction repeating =>
    cases repeating with
    | false => rfl
    | true =>
      -- The search goes on while bytes are left and the one at HL differs from the accumulator.
      set v := board.memory.read k.hl
      show (if (k.bc - 1 != 0 && (Arithmetic.sub k.a v false).value != 0) = true then
        k.pc + 1 else direction.step k.wz) = _
      simp only [Bool.and_eq_true, bne_iff_ne, ne_eq, word_sub_one_eq_zero,
        Arithmetic.value_sub_eq_zero]
      rfl
  | addPair target source =>
    cases target with
    | index x => cases x <;> rfl
    | _ => rfl
  | load target source =>
    rw [isIndexed, Bool.or_eq_false_iff] at h
    cases target with
    | atIndex x => cases h.1
    | _ =>
      cases source with
      | atIndex x => cases h.2
      | _ => rfl
  | loadImmediate o | increment o | decrement o | combine _ o | shift _ o _ | testBit _ o
  | resetBit _ o _ | setBit _ o _ =>
    cases o with
    | atIndex x => cases h
    | _ => rfl
  | _ => rfl

/-- A copy that is admitted beside indexed memory leaves the index registers as they are. -/
lemma Registers.index_setByteIf (k : Registers) {x : Index} {copy : Option ByteRegister}
    (h : (Operand.atIndex x).admitsCopy copy = true) (v : UInt8) (y : Index) :
    (k.setByteIf copy v).index y = k.index y := by
  cases copy with
  | none => rfl
  | some r =>
    cases r with
    | indexHigh z => cases h
    | indexLow z => cases h
    | _ => cases y <;> rfl

/-- An operation on indexed memory notes the indexed address. -/
lemma Operation.address_of_isIndexed (op : Operation) (h : op.isIndexed = true)
    (hcopy : op.copiesPlainly = true) : ∃ x, op.latchLaw = .indexed x ∧
      ∀ (d : Int8) (immediate : UInt16) (k : Registers) (board : Board),
        ((op.plan d immediate k).outcome board).address = displaced (k.index x) d := by
  cases op with
  | load target source =>
    cases source with
    | atIndex x => exact ⟨x, rfl, fun _ _ _ _ => rfl⟩
    | _ =>
      cases target with
      | atIndex x => exact ⟨x, rfl, fun _ _ _ _ => rfl⟩
      | _ => cases h
  | loadImmediate o | increment o | decrement o | combine _ o | testBit _ o =>
    cases o with
    | atIndex x => exact ⟨x, rfl, fun _ _ _ _ => rfl⟩
    | _ => cases h
  | shift _ o copy | resetBit _ o copy | setBit _ o copy =>
    cases o with
    | atIndex x =>
      refine ⟨x, rfl, fun d _ k _ => ?_⟩
      exact congrArg (fun w => displaced w d) (k.index_setByteIf hcopy _ x)
    | _ => cases h
  | _ => cases h

/-! ## The latch after an instruction -/

/-- An instruction leaves the word of the law of its operation, if what follows its opcode is found
where the law looks for it. -/
lemma Instruction.latch_eq_value (i : Instruction) (revision : Revision) (k : Registers)
    (board : Board) {start : Nat} (hcode : i.Encoded (MemoryBus.codeAt board k.pc) start) :
    i.latch revision k ((i.plan k).outcome board) =
      i.operation.latchLaw.value revision k board.memory start := by
  have hwz : ((i.plan k).outcome board).registers.wz = k.wz := i.operation.wz_plan _ _ _ _
  rw [latch, hwz, Operation.latchRule]
  cases hi : i.operation.isIndexed with
  | true =>
    have hcopy : i.operation.copiesPlainly = true := copiesPlainly_operation i.page i.opcode
    obtain ⟨x, hlaw, haddress⟩ := i.operation.address_of_isIndexed hi hcopy
    rw [hlaw, if_pos rfl]
    show ((i.operation.plan _ _ _).outcome board).address = _
    rw [haddress, hcode.displacement hi]
    cases x <;> rfl
  | false =>
    rw [if_neg Bool.false_ne_true]
    refine i.operation.apply_plainLatchRule hi revision k _ _ board start
      (hcode.immediate hi) ?_
    rw [← hcode.length hi]

section Pages

variable (revision : Revision) (k : Registers) (board : Board)

/-- An instruction whose opcode comes right after the prefixes of its page leaves the word of the
law of that opcode. -/
lemma latch_decodeFrom (page : Page) {law : LatchLaw}
    (h : (page.operation (MemoryBus.codeAt board k.pc page.prefixLength)).latchLaw = law) :
    let i := decodeFrom page (MemoryBus.codeAt board k.pc) page.prefixLength
    i.latch revision k ((i.plan k).outcome board) =
      law.value revision k board.memory (page.prefixLength + 1) := by
  intro i
  rw [i.latch_eq_value revision k board (encoded_decodeFrom page _), operation_decodeFrom, h]

/-- An instruction leaves the word of the table, however it is encoded. -/
lemma latch_of_encoding {i : Instruction} (h : Encoding (MemoryBus.codeAt board k.pc) i) :
    i.latch revision k ((i.plan k).outcome board) = latchAfter revision k board.memory := by
  set code := MemoryBus.codeAt board k.pc
  have h0 : board.memory.read k.pc = code 0 := (codeAt_zero board k.pc).symm
  have h1 : board.memory.read (k.pc + 1) = code 1 := rfl
  have hindex : ∀ (x : Index) second, latchLaw x.prefixByte second = (indexedLaw x second, 2) := by
    intro x second
    cases x <;> rfl
  rw [latchAfter, h0, h1]
  cases h with
  | main hfirst =>
    rw [latchLaw_of_main hfirst]
    exact latch_decodeFrom revision k board .main (latchLaw_mainOperation_none _ hfirst)
  | bits hfirst =>
    rw [hfirst]
    refine latch_decodeFrom revision k board .bits ?_
    exact (latchLaw_bitsOperation _ _ _).trans (latchLaw_operandOfCode _)
  | extended hfirst =>
    rw [hfirst]
    exact latch_decodeFrom revision k board .extended (latchLaw_extendedOperation _)
  | indexed x hfirst hsecond =>
    rw [hfirst, hindex]
    exact latch_decodeFrom revision k board (.indexed x) (latchLaw_mainOperation x _ hsecond)
  | indexedBits x hfirst hsecond =>
    set i : Instruction :=
      { page := .indexedBits x, opcode := code 3, displacement := (code 2).toInt8 }
    have hindexed : i.isIndexed = true := isIndexed_bitsOperation (.atIndex x) _ _
    have hlaw : i.operation.latchLaw = .indexed x := latchLaw_bitsOperation (.atIndex x) _ _
    have hencoded : i.Encoded code 2 :=
      ⟨fun _ => rfl, fun hplain => by simp [hindexed] at hplain,
        fun hplain => by simp [hindexed] at hplain⟩
    rw [i.latch_eq_value revision k board hencoded, hlaw, hfirst, hindex, hsecond]
    rfl
  | lone x hfirst hsecond =>
    rw [hfirst, hindex, indexedLaw, if_pos hsecond]
    rfl

/-- The instruction at the program counter leaves the word of the table. -/
lemma latch_decodeAt :
    let i := decodeAt board k.pc
    i.latch revision k ((i.plan k).outcome board) = latchAfter revision k board.memory :=
  latch_of_encoding revision k board (encoding_decode _)

end Pages

/-- **The law of the address latch.**  A step that executes an instruction leaves in the latch the
word that the table gives for its bytes, from the registers and the memory before the step. -/
theorem wz_step_of_ready {p : Processor} (h : p.Ready) (board : Board) :
    (p.step board).processor.registers.wz =
      latchAfter p.config.revision p.registers board.memory := by
  rw [Processor.registers_step_of_ready h]
  exact latch_decodeAt p.config.revision p.registers board

/-- Storing the accumulator at `1234h` leaves `0035h` on the chip that clears the high byte. -/
theorem wz_step_store :
    let p : Processor := { config := { revision := .bm1 } }
    let board : Board := { memory := ((Memory.zero.write 0 0x32).write 1 0x34).write 2 0x12 }
    p.Ready ∧ (p.step board).processor.registers.wz = 0x0035 := by
  intro p board
  have h : p.Ready := ⟨rfl, rfl⟩
  refine ⟨h, ?_⟩
  rw [wz_step_of_ready h]
  simp [p, board, latchAfter, Registers.powerOn, Memory.read_write, latchLaw, mainLaw,
    LatchLaw.value, Revision.storeHigh]
  decide

end Z80

import Z80.Proofs.Encoding
import Z80.Proofs.Latch

/-!
# Where the program goes on

Every instruction either goes on with the one behind it or leaves the sequence: it jumps, calls or
returns, or it is a block operation that repeats.  This file states, opcode by opcode, which of the
two it is and where the program goes, from the registers and the memory *before* the instruction,
and proves that a step sets the program counter to just that.

The table stands by itself, as that of the address latch does: `mainCourse` and `extendedCourse`
give the course of each opcode, `Course.leaves` says when a course leaves the sequence and
`Course.target` where it goes then.  `Operation.course` lies between the table and the operations:
`Operation.pc_plan` follows the program counter through every operation, and `course_mainOperation`
and its companions compare the courses of all opcodes with those of the table.
-/

namespace Z80

/-! ## The table -/

/-- Where the program goes on after an instruction.  Immediate words and distances are those that
follow the opcode. -/
inductive Course
  /-- Behind the instruction. -/
  | onward
  /-- At the immediate address. -/
  | immediate
  /-- At the immediate address, with the way back on the stack. -/
  | call
  /-- At the immediate address, on a condition. -/
  | jumpIf (condition : Condition)
  /-- At the immediate address, on a condition, with the way back on the stack. -/
  | callIf (condition : Condition)
  /-- At a fixed address. -/
  | fixed (target : UInt16)
  /-- Over the immediate distance. -/
  | distance
  /-- Over the immediate distance, on a condition. -/
  | distanceIf (condition : Condition)
  /-- Over the immediate distance, unless B counts down to zero. -/
  | distanceCounting
  /-- At the word on top of the stack. -/
  | top
  /-- At the word on top of the stack, on a condition. -/
  | topIf (condition : Condition)
  /-- At the word in a register pair. -/
  | pair (p : Pair)
  /-- At the instruction itself, unless BC counts down to zero. -/
  | transferring
  /-- At the instruction itself, unless BC counts down to zero or the byte at HL is found. -/
  | searching
  /-- At the instruction itself, unless B counts down to zero. -/
  | counting
  deriving DecidableEq

namespace Course

/-- Whether the program leaves the sequence, where the registers `k` and the memory are those before
the instruction. -/
def leaves (course : Course) (k : Registers) (memory : Memory) : Bool :=
  match course with
  | .onward => false
  | .immediate | .call | .fixed _ | .distance | .top | .pair _ => true
  | .jumpIf condition | .callIf condition | .distanceIf condition | .topIf condition =>
    condition.holds k.f
  | .distanceCounting | .counting => k.b != 1
  | .transferring => k.bc != 1
  | .searching => k.bc != 1 && k.a != memory.read k.hl

/-- Where the program goes if it leaves the sequence.  What follows the opcode starts `start` bytes
after the first byte, and `next` is the address behind the instruction. -/
def target (course : Course) (k : Registers) (memory : Memory) (start : Nat) (next : UInt16) :
    UInt16 :=
  let byte := memory.read (k.pc + UInt16.ofNat start)
  match course with
  | .onward => next
  | .immediate | .call | .jumpIf _ | .callIf _ =>
    word (memory.read (k.pc + UInt16.ofNat (start + 1))) byte
  | .fixed target => target
  | .distance | .distanceIf _ | .distanceCounting => displaced next byte.toInt8
  | .top | .topIf _ => memory.readWord k.sp
  | .pair p => k.pair p
  | .transferring | .searching | .counting => k.pc

/-- The address at which the program goes on. -/
def follow (course : Course) (k : Registers) (memory : Memory) (start : Nat) (next : UInt16) :
    UInt16 :=
  if course.leaves k memory = true then course.target k memory start next else next

/-- Whether a course may lead back to the instruction itself. -/
def repeats : Course → Bool
  | .transferring | .searching | .counting => true
  | _ => false

end Course

/-- The courses of the main page, with an index register in the place of HL if one is given. -/
def mainCourse (x : Option Index) (op : UInt8) : Course :=
  match op with
  | 0x10 => .distanceCounting
  | 0x18 => .distance
  | 0x20 => .distanceIf .nz
  | 0x28 => .distanceIf .z
  | 0x30 => .distanceIf .nc
  | 0x38 => .distanceIf .c
  | 0xC0 => .topIf .nz
  | 0xC8 => .topIf .z
  | 0xD0 => .topIf .nc
  | 0xD8 => .topIf .c
  | 0xE0 => .topIf .po
  | 0xE8 => .topIf .pe
  | 0xF0 => .topIf .p
  | 0xF8 => .topIf .m
  | 0xC9 => .top
  | 0xC2 => .jumpIf .nz
  | 0xCA => .jumpIf .z
  | 0xD2 => .jumpIf .nc
  | 0xDA => .jumpIf .c
  | 0xE2 => .jumpIf .po
  | 0xEA => .jumpIf .pe
  | 0xF2 => .jumpIf .p
  | 0xFA => .jumpIf .m
  | 0xC4 => .callIf .nz
  | 0xCC => .callIf .z
  | 0xD4 => .callIf .nc
  | 0xDC => .callIf .c
  | 0xE4 => .callIf .po
  | 0xEC => .callIf .pe
  | 0xF4 => .callIf .p
  | 0xFC => .callIf .m
  | 0xC3 => .immediate
  | 0xCD => .call
  | 0xC7 | 0xCF | 0xD7 | 0xDF | 0xE7 | 0xEF | 0xF7 | 0xFF => .fixed (op &&& 0x38).toUInt16
  | 0xE9 => .pair (pairHL x)
  | _ => .onward

/-- The courses of the extended page. -/
def extendedCourse (op : UInt8) : Course :=
  match op with
  | 0x45 | 0x4D | 0x55 | 0x5D | 0x65 | 0x6D | 0x75 | 0x7D => .top
  | 0xB0 | 0xB8 => .transferring
  | 0xB1 | 0xB9 => .searching
  | 0xB2 | 0xBA | 0xB3 | 0xBB => .counting
  | _ => .onward

/-- The course of the instruction whose first two bytes are given.  Behind an index prefix, neither
the other prefixes nor the opcodes that use memory leave the sequence. -/
def courseOf (first second : UInt8) : Course :=
  match first with
  | 0xCB => .onward
  | 0xED => extendedCourse second
  | 0xDD => mainCourse (some .ix) second
  | 0xFD => mainCourse (some .iy) second
  | op => mainCourse none op

/-- The address at which the program goes on after the instruction at the program counter of the
registers `k`. -/
def nextAddress (k : Registers) (memory : Memory) : UInt16 :=
  let first := memory.read k.pc
  let second := memory.read (k.pc + 1)
  let next := k.pc + UInt16.ofNat (encodedLength first second)
  (courseOf first second).follow k memory (operandStart first) next

/-! ## The courses of operations -/

/-- The course of an operation. -/
def Operation.course : Operation → Course
  | .jump => .immediate
  | .call => .call
  | .jumpIf condition => .jumpIf condition
  | .jumpTo p => .pair p
  | .jumpRelative => .distance
  | .jumpRelativeIf condition => .distanceIf condition
  | .countAndJump => .distanceCounting
  | .callIf condition => .callIf condition
  | .ret | .retInterrupt => .top
  | .retIf condition => .topIf condition
  | .restart target => .fixed target
  | .blockTransfer _ repeating => if repeating then .transferring else .onward
  | .blockSearch _ repeating => if repeating then .searching else .onward
  | .blockInput _ repeating | .blockOutput _ repeating => if repeating then .counting else .onward
  | _ => .onward

/-- An index prefix changes the course of no opcode but that of the jump to HL. -/
lemma mainCourse_index (x : Index) {op : UInt8} (h : op ≠ 0xE9) :
    mainCourse (some x) op = mainCourse none op := by
  unfold mainCourse
  split
  all_goals first | rfl | exact absurd rfl h

set_option maxRecDepth 4000 in
/-- The courses of the main page are those of its operations. -/
lemma course_mainOperation (x : Option Index) (op : UInt8) (h : isPrefix op = false) :
    (mainOperation x op).course = mainCourse x op := by
  have hplain : ∀ op, isPrefix op = false → (mainOperation none op).course = mainCourse none op :=
    forall_byte (by decide +kernel)
  have hindex : ∀ x op, op ≠ 0xE9 →
      (mainOperation (some x) op).course = (mainOperation none op).course := by
    intro x
    refine forall_byte ?_
    cases x <;> decide +kernel
  cases x with
  | none => exact hplain op h
  | some x =>
    by_cases hjump : op = 0xE9
    · rw [hjump]
      rfl
    · rw [hindex x op hjump, hplain op h, mainCourse_index x hjump]

set_option maxRecDepth 4000 in
lemma course_extendedOperation (op : UInt8) :
    (extendedOperation op).course = extendedCourse op := by
  revert op
  exact forall_byte (by decide +kernel)

/-- No operation on single bytes leaves the sequence. -/
lemma course_bitsOperation (o : Operand) (copy : Option ByteRegister) (op : UInt8) :
    (bitsOperation o copy op).course = .onward := by
  simp only [bitsOperation]
  split <;> rfl

/-- A byte that is no prefix has its course on the main page. -/
lemma courseOf_of_main {first : UInt8} (h : isPrefix first = false) (second : UInt8) :
    courseOf first second = mainCourse none first :=
  match_of_main _ _ _ _ _ _ h

/-- Behind an index prefix, the byte after it has its course on the main page. -/
lemma courseOf_index (x : Index) (second : UInt8) :
    courseOf x.prefixByte second = mainCourse (some x) second := by
  cases x <;> rfl

/-- The courses of all operations are those of the table. -/
lemma tabulates_course : Tabulates (fun first second _ => courseOf first second) Operation.course where
  main hfirst second _ := by
    rw [courseOf_of_main hfirst]
    exact course_mainOperation none _ hfirst
  bits _ _ := course_bitsOperation _ _ _
  extended _ _ := course_extendedOperation _
  indexed x _ hsecond _ := by
    rw [courseOf_index]
    exact course_mainOperation (some x) _ hsecond
  indexedBits x _ := by
    rw [courseOf_index]
    exact course_bitsOperation _ _ _
  lone x _ hsecond _ := by
    rw [courseOf_index]
    rcases hsecond with rfl | rfl | rfl <;> rfl

/-- The course of an instruction is that of the table. -/
lemma Encoding.course_eq {code : Nat → UInt8} {i : Instruction} (h : Encoding code i) :
    i.operation.course = courseOf (code 0) (code 1) :=
  h.eq_table tabulates_course

/-- No course of the main page leads back to the instruction itself. -/
lemma repeats_mainCourse (x : Option Index) (op : UInt8) : (mainCourse x op).repeats = false := by
  unfold mainCourse
  split <;> rfl

/-- A course of the extended page that leads back does so over two bytes. -/
lemma encodedLength_of_repeats_extended (op : UInt8) (h : (extendedCourse op).repeats = true) :
    encodedLength 0xED op = 2 := by
  unfold extendedCourse at h
  split at h
  all_goals first | rfl | cases h

/-- A course that leads back to the instruction itself does so over two bytes. -/
lemma encodedLength_of_repeats {first second : UInt8}
    (h : (courseOf first second).repeats = true) : encodedLength first second = 2 := by
  unfold courseOf at h
  split at h
  · rfl
  · exact encodedLength_of_repeats_extended second h
  all_goals
    rw [repeats_mainCourse] at h
    cases h

/-! ## Operations and the program counter

Writing registers keeps the program counter, which already points behind the instruction.  Going
back, jumping and calling set it.
-/

namespace Registers

@[simp] lemma pc_setByteIf (k : Registers) (r : Option ByteRegister) (v : UInt8) :
    (k.setByteIf r v).pc = k.pc :=
  congrArg Implicit.pc (k.implicit_setByteIf r v)

lemma pc_setPair (k : Registers) (p : Pair) (v : UInt16) : (k.setPair p v).pc = k.pc :=
  congrArg Implicit.pc (k.implicit_setPair p v)

lemma pc_rewindIf (k : Registers) (again : Bool) :
    (k.rewindIf again).pc = if again = true then k.pc - 2 else k.pc := by
  cases again <;> rfl

lemma pc_jumpIf (k : Registers) (target : UInt16) (taken : Bool) :
    (k.jumpIf target taken).registers.pc = if taken = true then target else k.pc := by
  cases taken <;> rfl

lemma pc_callIf (k : Registers) (target : UInt16) (taken : Bool) :
    (k.callIf target taken).registers.pc = if taken = true then target else k.pc := by
  cases taken <;> rfl

end Registers

@[simp] lemma Operand.pc_write (o : Operand) (d : Int8) (k : Registers) (v : UInt8) :
    (o.write d k v).registers.pc = k.pc :=
  congrArg Implicit.pc (o.implicit_write d k v)

/-- A block operation that repeats goes back to its first byte, and one that does not goes on. -/
lemma Registers.pc_rewindIf_back (k : Registers) {pc : UInt16} (h : k.pc = pc + 2) (again : Bool) :
    (k.rewindIf again).pc = if again = true then pc else k.pc := by
  have hback : k.pc - 2 = pc := by
    rw [h]
    grind
  rw [pc_rewindIf, hback]

/-- Every operation goes where its course leads, if its immediate value is found where the course
looks for it and a course that leads back does so over two bytes. -/
lemma Operation.pc_plan (op : Operation) (k : Registers) (r : UInt8) (d : Int8)
    {immediate next : UInt16} (board : Board) (start : Nat)
    (himmediate : op.isIndexed = false → immediate =
      immediateValue (MemoryBus.codeAt board k.pc) start op.immediateSize)
    (hback : op.course.repeats = true → next = k.pc + 2) :
    ((op.plan d immediate { k with r, pc := next }).outcome board).registers.pc =
      op.course.follow k board.memory start next := by
  set code := MemoryBus.codeAt board k.pc
  have hbyte : low (immediateValue code start 1) = code start := low_toUInt16 _
  cases op with
  | jump | call =>
    rw [himmediate rfl]
    rfl
  | jumpIf condition =>
    rw [himmediate rfl]
    exact Registers.pc_jumpIf _ _ _
  | callIf condition =>
    rw [himmediate rfl]
    exact Registers.pc_callIf _ _ _
  | jumpRelative =>
    show displaced next (low immediate).toInt8 = displaced next (code start).toInt8
    rw [himmediate rfl, ← hbyte]
    rfl
  | jumpRelativeIf condition =>
    have hlow : low immediate = code start := by
      rw [himmediate rfl]
      exact hbyte
    simp only [plan, Registers.jumpRelativeIf, hlow]
    exact Registers.pc_jumpIf _ _ _
  | countAndJump =>
    have hlow : low immediate = code start := by
      rw [himmediate rfl]
      exact hbyte
    -- B is counted down before it is looked at, so the jump is made unless it was one.
    simp only [plan, Registers.jumpRelativeIf, hlow, byte_sub_one_ne_zero]
    exact Registers.pc_jumpIf _ _ _
  | retIf condition =>
    show _ = if condition.holds k.f = true then board.memory.readWord k.sp else next
    by_cases hholds : condition.holds k.f = true
    · rw [plan, if_pos hholds, if_pos hholds]
      rfl
    · rw [plan, if_neg hholds, if_neg hholds]
      rfl
  | blockTransfer direction repeating =>
    cases repeating with
    | false => rfl
    | true =>
      refine (Registers.pc_rewindIf_back _ (hback rfl) _).trans ?_
      show (if (k.bc - 1 != 0) = true then k.pc else next) = _
      rw [word_sub_one_ne_zero]
      rfl
  | blockSearch direction repeating =>
    cases repeating with
    | false => rfl
    | true =>
      set v := board.memory.read k.hl
      refine (Registers.pc_rewindIf_back _ (hback rfl) _).trans ?_
      show (if (k.bc - 1 != 0 && (Arithmetic.sub k.a v false).value != 0) = true then k.pc
        else next) = _
      rw [word_sub_one_ne_zero, Arithmetic.value_sub_ne_zero]
      rfl
  | blockInput direction repeating | blockOutput direction repeating =>
    cases repeating with
    | false => rfl
    | true =>
      refine (Registers.pc_rewindIf_back _ (hback rfl) _).trans ?_
      show (if (k.b - 1 != 0) = true then k.pc else next) = _
      rw [byte_sub_one_ne_zero]
      rfl
  | exchangeTop p | loadPair p | loadPairImmediate p | incrementPair p | decrementPair p =>
    exact Registers.pc_setPair _ p _
  | pop p => exact Registers.pc_setPair _ p _
  | addPair target source => exact Registers.pc_setPair _ target _
  | load | increment | decrement | combine | shift | testBit | resetBit | setBit =>
    simp [plan, Registers.setResult, course, Course.follow, Course.leaves]
  | loadImmediate o => exact o.pc_write d _ _
  | input target => exact Registers.pc_setByteIf _ target _
  | _ => rfl

/-! ## The address after an instruction -/

/-- The instruction at the program counter goes where the table says. -/
lemma pc_outcome (k : Registers) (board : Board) :
    (((decodeAt board k.pc).plan k).outcome board).registers.pc = nextAddress k board.memory := by
  set code := MemoryBus.codeAt board k.pc
  have hi : Encoding code (decode code) := encoding_decode code
  have hfirst : board.memory.read k.pc = code 0 := (codeAt_zero board k.pc).symm
  have hsecond : board.memory.read (k.pc + 1) = code 1 := rfl
  have hback : (decode code).operation.course.repeats = true →
      k.pc + UInt16.ofNat (decode code).length = k.pc + 2 := by
    intro hrepeats
    rw [hi.course_eq] at hrepeats
    rw [hi.length_eq, encodedLength_of_repeats hrepeats]
    rfl
  rw [nextAddress, hfirst, hsecond, ← hi.course_eq, ← hi.length_eq]
  exact (decode code).operation.pc_plan k _ _ board _ hi.immediate_eq hback

/-- **The law of the next address.**  A step that executes an instruction leaves in the program
counter the address that the table gives for its bytes, from the registers and the memory before the
step. -/
theorem pc_step_of_ready {p : Processor} (h : p.Ready) (board : Board) :
    (p.step board).processor.registers.pc = nextAddress p.registers board.memory := by
  rw [Processor.registers_step_of_ready h]
  exact pc_outcome p.registers board

/-- A return behind an index prefix takes the word on top of the stack, here its own second byte and
the one after it. -/
theorem pc_step_return :
    let p : Processor := { registers := { Registers.powerOn with sp := 1 } }
    let board : Board := { memory := ((Memory.zero.write 0 0xDD).write 1 0xC9).write 2 0x12 }
    p.Ready ∧ (p.step board).processor.registers.pc = 0x12C9 := by
  intro p board
  have h : p.Ready := ⟨rfl, rfl⟩
  refine ⟨h, ?_⟩
  rw [pc_step_of_ready h]
  simp [p, board, nextAddress, Registers.powerOn, Memory.read_write, courseOf, mainCourse,
    Course.follow, Course.leaves, Course.target, Memory.readWord]
  decide

end Z80

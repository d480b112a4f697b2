import Z80.Proofs.Course

/-!
# How long a step takes

A step that accepts an interrupt takes as long as its kind and the interrupt mode say, a step that
waits takes one fetch, and a step that executes an instruction takes the time of its opcode and, if
it leaves the sequence in certain ways, something more.  This file states these times by opcode
bytes, from what is found before the step, and proves that they are the durations of all steps.

The base times are tables: `mainTimes`, `bitsTime` and `extendedTime` for the three pages, from which
`indexedTime` and `indexedBitsTime` derive those behind an index prefix.  What is added is a property
of the course of the instruction (`Course.time`).  A call or a return counts as taken, on a condition
or without one, and so does a jump over a distance or on a condition, while a jump without a condition
to an immediate address or a register pair does not (`Course.counts`).  Not everything that counts as
taken adds something (`Course.extra`); `Operation.taken_plan` and `Operation.extraDuration_eq` relate
the two to the plans of the operations.
-/

namespace Z80

/-! ## The table -/

/-- The base times of the main page, in rows of sixteen; a prefix has none. -/
def mainTimes : List Nat :=
  [4, 10, 7, 6, 4, 4, 7, 4, 4, 11, 7, 6, 4, 4, 7, 4,
   8, 10, 7, 6, 4, 4, 7, 4, 12, 11, 7, 6, 4, 4, 7, 4,
   7, 10, 16, 6, 4, 4, 7, 4, 7, 11, 16, 6, 4, 4, 7, 4,
   7, 10, 13, 6, 11, 11, 10, 4, 7, 11, 13, 6, 4, 4, 7, 4,
   4, 4, 4, 4, 4, 4, 7, 4, 4, 4, 4, 4, 4, 4, 7, 4,
   4, 4, 4, 4, 4, 4, 7, 4, 4, 4, 4, 4, 4, 4, 7, 4,
   4, 4, 4, 4, 4, 4, 7, 4, 4, 4, 4, 4, 4, 4, 7, 4,
   7, 7, 7, 7, 7, 7, 4, 7, 4, 4, 4, 4, 4, 4, 7, 4,
   4, 4, 4, 4, 4, 4, 7, 4, 4, 4, 4, 4, 4, 4, 7, 4,
   4, 4, 4, 4, 4, 4, 7, 4, 4, 4, 4, 4, 4, 4, 7, 4,
   4, 4, 4, 4, 4, 4, 7, 4, 4, 4, 4, 4, 4, 4, 7, 4,
   4, 4, 4, 4, 4, 4, 7, 4, 4, 4, 4, 4, 4, 4, 7, 4,
   5, 10, 10, 10, 10, 11, 7, 11, 5, 10, 10, 0, 10, 17, 7, 11,
   5, 10, 10, 11, 10, 11, 7, 11, 5, 4, 10, 11, 10, 0, 7, 11,
   5, 10, 10, 19, 10, 11, 7, 11, 5, 4, 10, 4, 10, 0, 7, 11,
   5, 10, 10, 4, 10, 11, 7, 11, 5, 6, 10, 4, 10, 0, 7, 11]

/-- The base time of an opcode of the main page. -/
def mainTime (op : UInt8) : Nat :=
  mainTimes.getD op.toNat 0

/-- The base time of an opcode of the bit page: longer for memory at HL, and there shorter for a
test, which writes nothing back. -/
def bitsTime (op : UInt8) : Nat :=
  if op &&& 0x07 = 6 then (if op &&& 0xC0 = 0x40 then 12 else 15) else 8

/-- The base time of an opcode of the extended page. -/
def extendedTime (op : UInt8) : Nat :=
  match op with
  -- Ports, arithmetic on HL, copies of pairs and returns.
  | 0x40 | 0x48 | 0x50 | 0x58 | 0x60 | 0x68 | 0x70 | 0x78 => 12
  | 0x41 | 0x49 | 0x51 | 0x59 | 0x61 | 0x69 | 0x71 | 0x79 => 12
  | 0x42 | 0x4A | 0x52 | 0x5A | 0x62 | 0x6A | 0x72 | 0x7A => 15
  | 0x43 | 0x4B | 0x53 | 0x5B | 0x63 | 0x6B | 0x73 | 0x7B => 20
  | 0x45 | 0x4D | 0x55 | 0x5D | 0x65 | 0x6D | 0x75 | 0x7D => 14
  -- The interrupt page, the refresh counter and the digits.
  | 0x47 | 0x4F | 0x57 | 0x5F => 9
  | 0x67 | 0x6F => 18
  -- Block operations.
  | 0xA0 | 0xA1 | 0xA2 | 0xA3 | 0xA8 | 0xA9 | 0xAA | 0xAB => 16
  | 0xB0 | 0xB1 | 0xB2 | 0xB3 | 0xB8 | 0xB9 | 0xBA | 0xBB => 16
  -- Negation, interrupt modes and everything undefined.
  | _ => 8

/-- The base time behind an index prefix: one fetch more than without it, and the time to find
indexed memory, some of which passes while an immediate byte is read. -/
def indexedTime (op : UInt8) : Nat :=
  mainTime op + 4 + (if usesMemory op = true then (if op = 0x36 then 5 else 8) else 0)

/-- The base time behind an index prefix and that of the bit page. -/
def indexedBitsTime (op : UInt8) : Nat :=
  if op &&& 0xC0 = 0x40 then 20 else 23

/-- The base time of the instruction with the given first, second and fourth byte. -/
def baseTime (first second fourth : UInt8) : Nat :=
  match first with
  | 0xCB => bitsTime second
  | 0xED => extendedTime second
  | 0xDD | 0xFD =>
    if second = 0xDD ∨ second = 0xFD ∨ second = 0xED then 4
    else if second = 0xCB then indexedBitsTime fourth
    else indexedTime second
  | op => mainTime op

namespace Course

/-- The time that a course adds if it leaves the sequence. -/
def extra : Course → Nat
  | .distanceIf _ | .distanceCounting | .transferring | .searching | .counting => 5
  | .topIf _ => 6
  | .callIf _ => 7
  | .onward | .immediate | .call | .jumpIf _ | .fixed _ | .distance | .top | .pair _ => 0

/-- The time that a course adds, from the registers and the memory before the instruction. -/
def time (course : Course) (k : Registers) (memory : Memory) : Nat :=
  if course.leaves k memory = true then course.extra else 0

/-- Whether an instruction counts as taken: it leaves the sequence, but not by a jump without a
condition to the immediate address or a register pair. -/
def counts (course : Course) (k : Registers) (memory : Memory) : Bool :=
  match course with
  | .immediate | .pair _ => false
  | course => course.leaves k memory

end Course

/-- The course of the instruction at the program counter of the registers `k`. -/
def courseAt (k : Registers) (memory : Memory) : Course :=
  courseOf (memory.read k.pc) (memory.read (k.pc + 1))

/-- The time of the instruction at the program counter of the registers `k`. -/
def instructionTime (k : Registers) (memory : Memory) : Nat :=
  baseTime (memory.read k.pc) (memory.read (k.pc + 1)) (memory.read (k.pc + 3)) +
    (courseAt k memory).time k memory

/-- The time of the next step. -/
def Processor.stepTime (p : Processor) (memory : Memory) : Nat :=
  match p.accepts? with
  | some .nonMaskable => 11
  | some (.maskable _) => if p.registers.im = 0 ∨ p.registers.im = 1 then 13 else 19
  | none => if p.registers.halted = true then 4 else instructionTime p.registers memory

/-! ## Base times -/

set_option maxRecDepth 4000 in
/-- The table lists the durations of the main page in the order of the opcodes. -/
lemma mainTimes_eq : mainTimes = List.ofFn fun n : Fin 256 =>
    if isPrefix (UInt8.ofNat n) = true then 0
    else (mainOperation none (UInt8.ofNat n)).duration := by
  decide +kernel

/-- The main page has the times of the table. -/
lemma duration_mainOperation (op : UInt8) (h : isPrefix op = false) :
    (mainOperation none op).duration = mainTime op := by
  have hop : UInt8.ofNat op.toNat = op := UInt8.ofNat_toNat
  rw [mainTime, mainTimes_eq, List.getD_eq_getElem?_getD, List.getElem?_ofFn,
    dif_pos op.toNat_lt, hop, h]
  rfl

/-- Whether a page lists an opcode.  Where prefixes are read as such, they are not listed. -/
def Page.lists (page : Page) (op : UInt8) : Bool :=
  match page with
  | .main | .indexed _ => !isPrefix op
  | .lone | .bits | .extended | .indexedBits _ => true

/-- The base time of an opcode on a page, with the fetch of the prefix before it. -/
def Page.time (page : Page) (op : UInt8) : Nat :=
  match page with
  | .main => mainTime op
  | .lone => 4
  | .bits => bitsTime op
  | .extended => extendedTime op
  | .indexed _ => indexedTime op
  | .indexedBits _ => indexedBitsTime op

set_option maxRecDepth 4000 in
/-- The tables have the durations of the operations on all pages. -/
lemma Page.duration_operation (page : Page) (op : UInt8) (h : page.lists op = true) :
    4 * (page.fetches - 1) + (page.operation op).duration = page.time op := by
  cases page with
  | main => exact (Nat.zero_add _).trans (duration_mainOperation op (by simpa [lists] using h))
  | lone => rfl
  | bits | extended =>
    clear h
    revert op
    exact forall_byte (by decide +kernel)
  | indexed x =>
    -- An index prefix adds its own fetch and, where memory is used, the time to find it.
    have hindex : ∀ op, (mainOperation (some x) op).duration = (mainOperation none op).duration +
        (if usesMemory op = true then (if op = 0x36 then 5 else 8) else 0) := by
      refine forall_byte ?_
      cases x <;> decide +kernel
    have hplain := duration_mainOperation op (by simpa [lists] using h)
    simp only [fetches, operation, time, indexedTime, hindex, hplain]
    omega
  | indexedBits x =>
    clear h
    revert op
    refine forall_byte ?_
    cases x <;> decide +kernel

/-- The base time of an opcode without a prefix is that of the main page. -/
lemma baseTime_of_main {first : UInt8} (h : isPrefix first = false) (second fourth : UInt8) :
    baseTime first second fourth = mainTime first :=
  match_of_main _ _ _ _ _ _ h

/-- An instruction whose opcode is listed takes the time of its page. -/
lemma duration_decodeFrom {page : Page} {code : Nat → UInt8} {start : Nat}
    (h : page.lists (code start) = true) :
    (decodeFrom page code start).duration = page.time (code start) := by
  rw [Instruction.duration, page_decodeFrom, operation_decodeFrom, page.duration_operation _ h]

/-- The duration of an instruction is the base time of the table. -/
lemma Encoding.duration_eq {code : Nat → UInt8} {i : Instruction} (h : Encoding code i) :
    i.duration = baseTime (code 0) (code 1) (code 3) := by
  have hindex : ∀ (x : Index) (second fourth : UInt8), baseTime x.prefixByte second fourth =
      if second = 0xDD ∨ second = 0xFD ∨ second = 0xED then 4
      else if second = 0xCB then indexedBitsTime fourth
      else indexedTime second := by
    intro x second fourth
    cases x <;> rfl
  cases h with
  | main hfirst =>
    rw [duration_decodeFrom (by simp [Page.lists, hfirst]), baseTime_of_main hfirst]
    rfl
  | bits hfirst =>
    rw [duration_decodeFrom rfl, hfirst]
    rfl
  | extended hfirst =>
    rw [duration_decodeFrom rfl, hfirst]
    rfl
  | indexed x hfirst hsecond =>
    rw [duration_decodeFrom (by simp [Page.lists, hsecond]), hfirst, hindex]
    rw [← Bool.not_eq_true, isPrefix_iff] at hsecond
    rw [if_neg (by tauto), if_neg (by tauto)]
    rfl
  | indexedBits x hfirst hsecond =>
    rw [hfirst, hsecond, hindex]
    exact Page.duration_operation (.indexedBits x) (code 3) rfl
  | lone x hfirst hsecond =>
    rw [hfirst, hindex, if_pos hsecond]
    rfl

/-! ## What a course adds -/

/-- What an operation may add to its duration is what its course adds. -/
lemma Operation.extraDuration_eq (op : Operation) : op.extraDuration = op.course.extra := by
  cases op with
  | blockTransfer _ repeating | blockSearch _ repeating | blockInput _ repeating
  | blockOutput _ repeating => cases repeating <;> rfl
  | _ => rfl

lemma Registers.taken_callIf (k : Registers) (target : UInt16) (taken : Bool) :
    (k.callIf target taken).taken = taken := by
  cases taken <;> rfl

@[simp] lemma Operand.taken_write (o : Operand) (d : Int8) (k : Registers) (v : UInt8) :
    (o.write d k v).taken = false := by
  cases o <;> rfl

/-- An operation counts as taken just if its course does. -/
lemma Operation.taken_plan (op : Operation) (k : Registers) (r : UInt8) (d : Int8)
    (immediate next : UInt16) (board : Board) :
    ((op.plan d immediate { k with r, pc := next }).outcome board).taken =
      op.course.counts k board.memory := by
  cases op with
  | callIf condition => exact Registers.taken_callIf _ _ _
  | countAndJump =>
    show (k.b - 1 != 0) = (k.b != 1)
    exact byte_sub_one_ne_zero k.b
  | retIf condition =>
    show _ = condition.holds k.f
    by_cases hholds : condition.holds k.f = true
    · rw [plan, if_pos hholds, hholds]
      rfl
    · rw [plan, if_neg hholds, Bool.eq_false_iff.mpr hholds]
      rfl
  | blockTransfer direction repeating =>
    cases repeating with
    | false => rfl
    | true => exact word_sub_one_ne_zero k.bc
  | blockSearch direction repeating =>
    cases repeating with
    | false => rfl
    | true =>
      set v := board.memory.read k.hl
      show (k.bc - 1 != 0 && (Arithmetic.sub k.a v false).value != 0) = (k.bc != 1 && k.a != v)
      rw [word_sub_one_ne_zero, Arithmetic.value_sub_ne_zero]
  | blockInput direction repeating | blockOutput direction repeating =>
    cases repeating with
    | false => rfl
    | true => exact byte_sub_one_ne_zero k.b
  | loadImmediate o => exact o.taken_write d _ _
  | load | increment | decrement | combine | shift | testBit | resetBit | setBit =>
    simp [plan, course, Course.counts, Course.leaves]
  | _ => rfl

/-! ## The time of a step -/

/-- The course of the instruction that is found at an address, by its first two bytes. -/
lemma course_decodeAt (k : Registers) (board : Board) :
    (decodeAt board k.pc).operation.course = courseAt k board.memory := by
  rw [courseAt, ← codeAt_zero]
  exact (encoding_decode (MemoryBus.codeAt board k.pc)).course_eq

/-- The instruction at the program counter counts as taken just if its course does. -/
lemma taken_outcome (p : Processor) (board : Board) :
    (p.outcome board).taken =
      (courseAt p.registers board.memory).counts p.registers board.memory := by
  rw [← course_decodeAt]
  exact Operation.taken_plan _ p.registers _ _ _ _ board

/-- What a course adds is added just if it counts as taken. -/
lemma Course.time_eq (course : Course) (k : Registers) (memory : Memory) :
    course.time k memory = if course.counts k memory = true then course.extra else 0 := by
  cases course <;> rfl

/-- The instruction at the program counter takes the time of the table. -/
lemma durationOf_outcome (p : Processor) (board : Board) :
    (decodeAt board p.registers.pc).durationOf (p.outcome board) =
      instructionTime p.registers board.memory := by
  have hbase : (decodeAt board p.registers.pc).duration =
      baseTime (board.memory.read p.registers.pc) (board.memory.read (p.registers.pc + 1))
        (board.memory.read (p.registers.pc + 3)) := by
    rw [← codeAt_zero]
    exact (encoding_decode (MemoryBus.codeAt board p.registers.pc)).duration_eq
  have hextra : (decodeAt board p.registers.pc).extraDuration =
      (courseAt p.registers board.memory).extra := by
    rw [Instruction.extraDuration, Operation.extraDuration_eq, course_decodeAt]
  rw [Instruction.durationOf, instructionTime, Course.time_eq, taken_outcome, hbase, hextra]
  split <;> rfl

/-- Behind an index prefix, an opcode adds what it adds without one. -/
lemma time_mainCourse (x : Index) (op : UInt8) (k : Registers) (memory : Memory) :
    (mainCourse (some x) op).time k memory = (mainCourse none op).time k memory := by
  by_cases hjump : op = 0xE9
  · rw [hjump]
    rfl
  · rw [mainCourse_index x hjump]

/-- **The law of time.**  Every step takes the time that the table gives from the state before it.
Calls, returns, and jumps over a distance or on a condition count as taken also where that adds
nothing, jumps without a condition to an address do not, and behind an index prefix an opcode adds what
it adds without one. -/
theorem duration_step (p : Processor) (board : Board) :
    (p.step board).duration = p.stepTime board.memory ∧
    (p.outcome board).taken =
      (courseAt p.registers board.memory).counts p.registers board.memory ∧
    ∀ (x : Index) (op next : UInt8), isPrefix op = false →
      (courseOf x.prefixByte op).time p.registers board.memory =
        (courseOf op next).time p.registers board.memory := by
  refine ⟨?_, taken_outcome p board, ?_⟩
  · rw [Processor.stepTime]
    obtain ⟨i, haccepts, hstep⟩ | ⟨haccepts, hhalted, hstep⟩ | ⟨hready, hstep⟩ := p.step_cases board
    · rw [hstep, haccepts]
      cases i <;> rfl
    · rw [hstep, haccepts]
      simp only [hhalted, if_true]
      rfl
    · rw [hstep, hready.accepts]
      simp only [hready.halted, Bool.false_eq_true, if_false]
      rw [← durationOf_outcome, Processor.execute, Plan.run_eq]
      rfl
  · intro x op next hplain
    rw [courseOf_index, courseOf_of_main hplain]
    exact time_mainCourse x op p.registers board.memory

/-- Behind an index prefix, a conditional jump that is made takes five more than its base time of
eleven. -/
theorem duration_step_jump :
    let p : Processor := {}
    let board : Board := { memory := (Memory.zero.write 0 0xDD).write 1 0x28 }
    isPrefix 0x28 = false ∧ (p.step board).duration = 16 ∧ (p.outcome board).taken = true ∧
      (courseOf 0xDD 0x28).time p.registers board.memory =
        (courseOf 0x28 0).time p.registers board.memory := by
  intro p board
  obtain ⟨hduration, htaken, hsame⟩ := duration_step p board
  refine ⟨rfl, hduration.trans ?_, htaken.trans ?_, hsame .ix 0x28 0 rfl⟩
  all_goals decide +kernel

end Z80

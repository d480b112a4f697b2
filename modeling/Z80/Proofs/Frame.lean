import Z80.Proofs.Encoding
import Z80.Proofs.Hidden
import Z80.Proofs.Service

/-!
# What a step leaves in the registers

Most registers are changed by few instructions.  This file states for nine parts of the register file,
opcode by opcode, which steps may change them, and proves that all other steps keep them.

The table stands by itself, as those of the next address and of the footprints do: `Part.inMain` and its
companions go by opcode bytes only.  Between the table and the operations lies `Operation.changes`, the
list of the parts that an operation may change.  An operation writes parts through its operands, which
are lists of parts as well (`Operand.parts`, `Pair.parts`), and directly; `Operation.kept_plan` says
that it keeps every part that is not listed.
-/

namespace Z80

/-! ## Parts -/

/-- The parts of the register file that few instructions change. -/
inductive Part
  /-- The shadow bank. -/
  | shadow
  /-- The page of the interrupt vectors. -/
  | page
  /-- The interrupt mode. -/
  | mode
  /-- The interrupt enable. -/
  | iff1
  /-- The saved interrupt enable. -/
  | iff2
  /-- Whether the processor waits. -/
  | halted
  /-- An index register. -/
  | index (x : Index)
  /-- The stack pointer. -/
  | stack
  /-- The flags. -/
  | flags
  deriving DecidableEq

/-- The part has the same value in both register files. -/
def Part.Kept (part : Part) (k k' : Registers) : Prop :=
  match part with
  | .shadow => k'.shadow = k.shadow
  | .page => k'.i = k.i
  | .mode => k'.im = k.im
  | .iff1 => k'.iff1 = k.iff1
  | .iff2 => k'.iff2 = k.iff2
  | .halted => k'.halted = k.halted
  | .index x => k'.index x = k.index x
  | .stack => k'.sp = k.sp
  | .flags => k'.f = k.f

/-! ## The table -/

namespace Part

/-- Whether an opcode of the main page may change a part, with an index register in the place of HL if
one is given. -/
def inMain (part : Part) (x : Option Index) (op : UInt8) : Bool :=
  match part with
  | .shadow => op == 0x08 || op == 0xD9
  | .page | .mode => false
  | .iff1 | .iff2 => op == 0xF3 || op == 0xFB
  | .halted => op == 0x76
  | .index y => x == some y
  -- Putting on the stack and taking from it, calls, restarts and returns, with and without a
  -- condition, and the pair operations on the stack pointer.
  | .stack =>
    op &&& 0xCF == 0xC5 || op &&& 0xCF == 0xC1 ||
    op &&& 0xC7 == 0xC4 || op == 0xCD || op &&& 0xC7 == 0xC7 || op &&& 0xC7 == 0xC0 || op == 0xC9 ||
    op == 0x31 || op == 0xF9 || op == 0x33 || op == 0x3B
  -- Counting bytes, adding to HL, the eight operations on the accumulator alone, combinations with
  -- the accumulator, and AF taken from the stack or exchanged.
  | .flags =>
    op &&& 0xC7 == 0x04 || op &&& 0xC7 == 0x05 || op &&& 0xCF == 0x09 || op &&& 0xC7 == 0x07 ||
    op &&& 0xC0 == 0x80 || op &&& 0xC7 == 0xC6 || op == 0xF1 || op == 0x08

/-- Whether an opcode of the page of shifts and single bits may change a part: only shifts and tests
change the flags. -/
def inBits (part : Part) (op : UInt8) : Bool :=
  part == .flags && op < 0x80

/-- Whether an opcode of the extended page may change a part. -/
def inExtended (part : Part) (op : UInt8) : Bool :=
  match part with
  | .shadow | .iff2 | .halted | .index _ => false
  | .page => op == 0x47
  | .mode => op &&& 0xC7 == 0x46
  | .iff1 => op &&& 0xC7 == 0x45
  | .stack => op &&& 0xC7 == 0x45 || op == 0x7B
  -- Reading a port, adding to HL and subtracting from it with carry, negation, the interrupt page and
  -- the refresh counter, rotating digits, and block operations.
  | .flags =>
    op &&& 0xC7 == 0x40 || op &&& 0xC7 == 0x42 || op &&& 0xC7 == 0x44 || op == 0x57 || op == 0x5F ||
    op == 0x67 || op == 0x6F || op &&& 0xE4 == 0xA0

/-- Whether an instruction behind an index prefix may change a part, by the second and the fourth
byte.  A prefix that stands alone changes none. -/
def inIndexed (part : Part) (x : Index) (second fourth : UInt8) : Bool :=
  if second = 0xDD ∨ second = 0xFD ∨ second = 0xED then false
  else if second = 0xCB then part.inBits fourth
  else part.inMain (some x) second

/-- Whether the instruction with the given first, second and fourth byte may change a part. -/
def inInstruction (part : Part) (first second fourth : UInt8) : Bool :=
  match first with
  | 0xCB => part.inBits second
  | 0xED => part.inExtended second
  | 0xDD => part.inIndexed .ix second fourth
  | 0xFD => part.inIndexed .iy second fourth
  | op => part.inMain none op

/-- Whether accepting an interrupt may change a part. -/
def inAcceptance (part : Part) (i : Interrupt) : Bool :=
  match part, i with
  | .halted, _ | .iff1, _ | .stack, _ => true
  | .iff2, .maskable _ => true
  | _, _ => false

end Part

/-- Whether the next step may change a part. -/
def Processor.mayChange {β : Type} [MemoryBus β] (p : Processor) (bus : β) (part : Part) : Bool :=
  let pc := p.registers.pc
  match p.accepts? with
  | some i => part.inAcceptance i
  | none =>
    !p.registers.halted && part.inInstruction (MemoryBus.peek bus pc) (MemoryBus.peek bus (pc + 1))
      (MemoryBus.peek bus (pc + 3))

/-! ## What operations change -/

/-- The parts to which a byte register belongs. -/
def ByteRegister.parts : ByteRegister → List Part
  | .indexHigh x | .indexLow x => [.index x]
  | _ => []

/-- The parts that belong to a register pair. -/
def Pair.parts : Pair → List Part
  | .af => [.flags]
  | .index x => [.index x]
  | .sp => [.stack]
  | .bc | .de | .hl => []

/-- The parts that are written with an operand. -/
def Operand.parts : Operand → List Part
  | .register r => r.parts
  | .atHL | .atIndex _ => []

/-- The parts that are written with a register, if one is given. -/
def copyParts : Option ByteRegister → List Part
  | none => []
  | some r => r.parts

/-- The parts that an operation may change. -/
def Operation.changes : Operation → List Part
  | .halt => [.halted]
  | .disableInterrupts | .enableInterrupts => [.iff1, .iff2]
  | .setMode _ => [.mode]
  | .exchangeAF => [.shadow, .flags]
  | .exchangeMain => [.shadow]
  | .setInterruptPage => [.page]
  | .load o _ | .loadImmediate o => o.parts
  | .exchangeTop p | .loadPairImmediate p | .loadPair p | .incrementPair p | .decrementPair p => p.parts
  | .loadStackPointer _ | .push _ | .call | .callIf _ | .ret | .retIf _ | .restart _ => [.stack]
  | .retInterrupt => [.iff1, .stack]
  | .pop p => .stack :: p.parts
  | .addPair p _ => .flags :: p.parts
  | .increment o | .decrement o => .flags :: o.parts
  | .shift _ o copy => .flags :: (o.parts ++ copyParts copy)
  | .resetBit _ o copy | .setBit _ o copy => o.parts ++ copyParts copy
  | .input target => .flags :: copyParts target
  | .getInterruptPage | .getRefresh | .combine _ _ | .combineImmediate _ | .negate | .decimalAdjust
  | .complement | .setCarry | .complementCarry | .addPairCarry _ | .subPairCarry _
  | .shiftAccumulator _ | .testBit _ _ | .rotateDigitsRight | .rotateDigitsLeft | .blockTransfer _ _
  | .blockSearch _ _ | .blockInput _ _ | .blockOutput _ _ => [.flags]
  | _ => []

/-- Whether an opcode of a page may change a part. -/
def Part.inPage (part : Part) (page : Page) (op : UInt8) : Bool :=
  match page with
  | .main => part.inMain none op
  | .lone => false
  | .bits | .indexedBits _ => part.inBits op
  | .extended => part.inExtended op
  | .indexed x => part.inMain (some x) op

set_option maxRecDepth 4000 in
/-- The operations of a page change no parts but those of the table. -/
lemma inPage_of_changes (page : Page) (op : UInt8) :
    ∀ part ∈ (page.operation op).changes, part.inPage page op = true := by
  revert page op
  exact forall_opcode (by decide +kernel)

/-- A byte that is no prefix changes what its entry on the main page says. -/
lemma Part.inInstruction_of_main (part : Part) {first : UInt8} (h : isPrefix first = false)
    (second fourth : UInt8) :
    part.inInstruction first second fourth = part.inMain none first :=
  match_of_main _ _ _ _ _ _ h

lemma Part.inInstruction_index (part : Part) (x : Index) (second fourth : UInt8) :
    part.inInstruction x.prefixByte second fourth = part.inIndexed x second fourth := by
  cases x <;> rfl

/-- An instruction changes no parts but those of the table. -/
lemma Encoding.inInstruction_of_changes {code : Nat → UInt8} {i : Instruction} (h : Encoding code i)
    {part : Part} (hpart : part ∈ i.operation.changes) :
    part.inInstruction (code 0) (code 1) (code 3) = true := by
  cases h with
  | main hfirst =>
    rw [operation_decodeFrom] at hpart
    rw [part.inInstruction_of_main hfirst]
    exact inPage_of_changes .main _ part hpart
  | bits hfirst =>
    rw [operation_decodeFrom] at hpart
    rw [hfirst]
    exact inPage_of_changes .bits _ part hpart
  | extended hfirst =>
    rw [operation_decodeFrom] at hpart
    rw [hfirst]
    exact inPage_of_changes .extended _ part hpart
  | indexed x hfirst hsecond =>
    rw [operation_decodeFrom] at hpart
    rw [← Bool.not_eq_true, isPrefix_iff] at hsecond
    rw [hfirst, part.inInstruction_index, Part.inIndexed, if_neg (by tauto), if_neg (by tauto)]
    exact inPage_of_changes (.indexed x) _ part hpart
  | indexedBits x hfirst hsecond =>
    rw [hfirst, part.inInstruction_index, hsecond]
    exact inPage_of_changes (.indexedBits x) _ part hpart
  | lone x hfirst hsecond => cases hpart

/-! ## What operations keep -/

namespace Part

variable (part : Part) (k : Registers)

/-- Every part of a register file is kept if nothing happens. -/
lemma kept_refl : part.Kept k k := by
  cases part <;> rfl

variable {part k}

lemma Kept.trans {k' k'' : Registers} (h : part.Kept k k') (h' : part.Kept k' k'') :
    part.Kept k k'' := by
  cases part <;> exact Eq.trans h' h

/-- Writing an index register keeps every other part. -/
lemma kept_setIndex {x : Index} (h : part ∉ [Part.index x]) (v : UInt16) :
    part.Kept k (k.setIndex x v) := by
  rw [List.mem_singleton] at h
  cases x <;> cases part with
  | index y =>
    cases y
    all_goals first | rfl | exact absurd rfl h
  | _ => rfl

lemma kept_setByte {r : ByteRegister} (h : part ∉ r.parts) (v : UInt8) :
    part.Kept k (k.setByte r v) := by
  cases r with
  | indexHigh x | indexLow x => exact kept_setIndex h _
  | _ => cases part <;> rfl

lemma kept_setByteIf {r : Option ByteRegister} (h : part ∉ copyParts r) (v : UInt8) :
    part.Kept k (k.setByteIf r v) := by
  cases r with
  | none => exact kept_refl part k
  | some r => exact kept_setByte h v

lemma kept_setPair {p : Pair} (h : part ∉ p.parts) (v : UInt16) :
    part.Kept k (k.setPair p v) := by
  cases p with
  | index x => exact kept_setIndex h v
  | af | sp => 
    rw [Pair.parts, List.mem_singleton] at h
    cases part <;> first | rfl | exact absurd rfl h
  | _ => cases part <;> rfl

/-- Writing an operand keeps every part that does not belong to it. -/
lemma kept_write {o : Operand} (h : part ∉ o.parts) (d : Int8) (v : UInt8) :
    part.Kept k (o.write d k v).registers := by
  cases o with
  | register r => exact kept_setByte h v
  | _ => exact kept_refl part k

/-- Changing the flags keeps every other part. -/
lemma kept_flags (h : part ≠ .flags) (f : Flags) : part.Kept k { k with f } := by
  cases part with
  | flags => exact absurd rfl h
  | _ => rfl

/-- Moving the stack pointer and going elsewhere keep every other part. -/
lemma kept_stack (h : part ≠ .stack) (sp pc : UInt16) : part.Kept k { k with sp, pc } := by
  cases part with
  | stack => exact absurd rfl h
  | _ => rfl

/-- A jump keeps all parts, whether it is made or not. -/
lemma kept_jumpIf (target : UInt16) (taken : Bool) :
    part.Kept k (k.jumpIf target taken).registers := by
  cases taken <;> cases part <;> rfl

/-- A call that is made moves the stack pointer. -/
lemma kept_callIf (h : part ≠ .stack) (target : UInt16) (taken : Bool) :
    part.Kept k (k.callIf target taken).registers := by
  cases taken with
  | false => exact kept_refl part k
  | true => exact kept_stack h _ _

end Part

namespace Operation

/-- An operation keeps every part that it is not listed to change, whatever it reads. -/
lemma kept_plan (op : Operation) {part : Part} (h : part ∉ op.changes) (d : Int8)
    (immediate : UInt16) (k : Registers) (board : Board) :
    part.Kept k ((op.plan d immediate k).outcome board).registers := by
  cases op with
  | exchangeTop p | loadPair p | loadPairImmediate p | incrementPair p | decrementPair p =>
    exact Part.kept_setPair h _
  | load target source =>
    simp only [plan, Operand.outcome_read]
    exact Part.kept_write h d _
  | loadImmediate target => exact Part.kept_write h d _
  | pop p =>
    obtain ⟨hstack, hpair⟩ := not_or.1 (List.mem_cons.not.1 h)
    exact (Part.kept_stack hstack _ k.pc).trans (Part.kept_setPair hpair _)
  | addPair target source =>
    obtain ⟨hflags, hpair⟩ := not_or.1 (List.mem_cons.not.1 h)
    exact (Part.kept_setPair hpair _).trans (Part.kept_flags hflags _)
  | increment o | decrement o =>
    obtain ⟨hflags, hoperand⟩ := not_or.1 (List.mem_cons.not.1 h)
    simp only [plan, Operand.outcome_read]
    exact (Part.kept_flags hflags _).trans (Part.kept_write hoperand d _)
  | shift s o copy =>
    obtain ⟨hflags, hrest⟩ := not_or.1 (List.mem_cons.not.1 h)
    obtain ⟨hoperand, hcopy⟩ := not_or.1 (List.mem_append.not.1 hrest)
    simp only [plan, Operand.outcome_read]
    exact ((Part.kept_setByteIf hcopy _).trans (Part.kept_flags hflags _)).trans
      (Part.kept_write hoperand d _)
  | resetBit n o copy | setBit n o copy =>
    obtain ⟨hoperand, hcopy⟩ := not_or.1 (List.mem_append.not.1 h)
    simp only [plan, Operand.outcome_read]
    exact (Part.kept_setByteIf hcopy _).trans (Part.kept_write hoperand d _)
  | input target =>
    obtain ⟨hflags, hcopy⟩ := not_or.1 (List.mem_cons.not.1 h)
    exact (Part.kept_setByteIf hcopy _).trans (Part.kept_flags hflags _)
  | jumpIf condition | jumpRelativeIf condition => exact Part.kept_jumpIf _ _
  | countAndJump =>
    have hcount : part.Kept k { k with b := k.b - 1 } := by cases part <;> rfl
    exact hcount.trans (Part.kept_jumpIf _ _)
  | callIf condition => exact Part.kept_callIf (List.mem_singleton.not.1 h) _ _
  | retIf condition =>
    simp only [plan]
    split
    · exact Part.kept_stack (List.mem_singleton.not.1 h) _ _
    · exact Part.kept_refl part k
  -- The rest changes a fixed list of parts, whatever is read and whether it goes back to repeat.
  | combine | testBit | blockTransfer | blockSearch | blockInput | blockOutput =>
    simp only [plan, Operand.outcome_read, Registers.blockTransfer, Registers.blockSearch,
      Registers.blockInput, Registers.blockOutput, Registers.rewindIf_eq]
    cases part <;> first | rfl | exact absurd (List.mem_of_elem_eq_true rfl) h
  | _ => cases part <;> first | rfl | exact absurd (List.mem_of_elem_eq_true rfl) h

end Operation

/-! ## Steps -/

namespace Part

variable {part : Part}

/-- Accepting an interrupt keeps every part that it is not listed to change. -/
lemma kept_accept {i : Interrupt} (h : part.inAcceptance i = false) (k : Registers) (board : Board) :
    part.Kept k ((k.accept i).outcome board).registers := by
  rw [k.outcome_accept]
  cases part with
  | halted | iff1 | stack => cases h
  | iff2 =>
    cases i with
    | nonMaskable => rfl
    | maskable data => cases h
  | _ => rfl

end Part

namespace Processor

variable {β : Type} [Bus β] {p : Processor} {bus : β} {part : Part}

/-- The bytes of an instruction tell what it does not change. -/
lemma notMem_changes (hready : p.Ready) (h : p.mayChange bus part = false) :
    part ∉ (decodeAt bus p.registers.pc).operation.changes := by
  intro hpart
  have hchanges := (encoding_decode _).inInstruction_of_changes hpart
  rw [MemoryBus.codeAt_first] at hchanges
  rw [mayChange, hready.accepts, hready.halted] at h
  exact Bool.false_ne_true (h.symm.trans hchanges)

/-- A step keeps every part that the table does not say it may change. -/
lemma kept_step (h : p.mayChange bus part = false) :
    part.Kept p.registers (p.step bus).processor.registers := by
  obtain ⟨i, haccepts, hstep⟩ | ⟨haccepts, hhalted, hstep⟩ | ⟨hready, hstep⟩ := p.step_cases bus
  · rw [mayChange, haccepts] at h
    obtain ⟨board, houtcome⟩ := (p.registers.accept i).exists_outcome bus
    have hkept := Part.kept_accept h p.registers board
    rw [houtcome] at hkept
    rw [hstep]
    exact hkept
  · rw [hstep]
    cases part <;> rfl
  · set i := decodeAt bus p.registers.pc
    obtain ⟨board, houtcome⟩ := (i.plan p.registers).exists_outcome bus
    have hfetched : part.Kept p.registers (i.fetched p.registers) := by cases part <;> rfl
    have hplan := i.operation.kept_plan (notMem_changes hready h) i.displacement i.immediate
      (i.fetched p.registers) board
    have hlatch : ∀ (k : Registers) (wz : UInt16), part.Kept k { k with wz } := by
      intro k wz
      cases part <;> rfl
    rw [hstep]
    change part.Kept _ ((i.plan p.registers).outcome board).registers at hplan
    rw [houtcome] at hplan
    exact (hfetched.trans hplan).trans (hlatch _ _)

end Processor

end Z80

import Z80.Proofs.Course
import Z80.Proofs.Service

/-!
# What a step writes to memory

A step writes at most two bytes of memory.  This file states, opcode by opcode, which addresses they
have, from the registers and the memory *before* the step, and proves that all other bytes stay.

The table stands by itself, as that of the next address does: `mainFootprint` and its companions give
the footprint of each opcode and `Footprint.addresses` the addresses that a footprint stands for.
`Operation.footprint` lies between the table and the operations.  Since a plan sends one value to the
bus in the end, the addresses can be read off its store: `Operation.addresses_plan` says that they are
exactly those of the footprint, and `Store.read_run` that a store changes no other byte.
-/

namespace Z80

/-! ## The table -/

/-- The bytes of memory that an instruction writes.  Immediate words and displacements are those that
follow the opcode. -/
inductive Footprint
  /-- None. -/
  | nothing
  /-- The byte at the address in a register pair. -/
  | pair (p : Pair)
  /-- The byte at the indexed address. -/
  | indexed (x : Index)
  /-- The byte at the immediate address. -/
  | immediate
  /-- The word at the immediate address. -/
  | immediateWord
  /-- The word on top of the stack. -/
  | top
  /-- A word that is put on the stack. -/
  | push
  /-- A word that is put on the stack, on a condition. -/
  | pushIf (condition : Condition)
  deriving DecidableEq

/-- The addresses of a word that is put on the stack. -/
def Registers.pushAddresses (k : Registers) : List UInt16 :=
  [k.sp - 1, k.sp - 2]

/-- The addresses of a footprint, where the registers `k` and the memory are those before the
instruction and what follows the opcode starts `start` bytes after the first byte. -/
def Footprint.addresses (footprint : Footprint) (k : Registers) (memory : Memory) (start : Nat) :
    List UInt16 :=
  let byte := memory.read (k.pc + UInt16.ofNat start)
  let word' := word (memory.read (k.pc + UInt16.ofNat (start + 1))) byte
  match footprint with
  | .nothing => []
  | .pair p => [k.pair p]
  | .indexed x => [displaced (k.index x) byte.toInt8]
  | .immediate => [word']
  | .immediateWord => [word', word' + 1]
  | .top => [k.sp, k.sp + 1]
  | .push => k.pushAddresses
  | .pushIf condition => if condition.holds k.f = true then k.pushAddresses else []

/-- The byte that takes the place of the one at HL. -/
def memoryFootprint : Option Index → Footprint
  | none => .pair .hl
  | some x => .indexed x

/-- The footprints of the main page, with an index register in the place of HL if one is given. -/
def mainFootprint (x : Option Index) (op : UInt8) : Footprint :=
  match op with
  | 0x02 => .pair .bc
  | 0x12 => .pair .de
  | 0x32 => .immediate
  | 0x22 => .immediateWord
  | 0x34 | 0x35 | 0x36 => memoryFootprint x
  | 0x70 | 0x71 | 0x72 | 0x73 | 0x74 | 0x75 | 0x77 => memoryFootprint x
  | 0xE3 => .top
  | 0xC5 | 0xD5 | 0xE5 | 0xF5 | 0xCD => .push
  | 0xC7 | 0xCF | 0xD7 | 0xDF | 0xE7 | 0xEF | 0xF7 | 0xFF => .push
  | 0xC4 => .pushIf .nz
  | 0xCC => .pushIf .z
  | 0xD4 => .pushIf .nc
  | 0xDC => .pushIf .c
  | 0xE4 => .pushIf .po
  | 0xEC => .pushIf .pe
  | 0xF4 => .pushIf .p
  | 0xFC => .pushIf .m
  | _ => .nothing

/-- The footprints of the page of shifts and single bits: a result goes back to memory if the operand
is there, and a test has none. -/
def bitsFootprint (op : UInt8) : Footprint :=
  if op &&& 0x07 = 6 ∧ op &&& 0xC0 ≠ 0x40 then .pair .hl else .nothing

/-- The footprints of the extended page. -/
def extendedFootprint (op : UInt8) : Footprint :=
  match op with
  | 0x43 | 0x53 | 0x63 | 0x73 => .immediateWord
  | 0x67 | 0x6F => .pair .hl
  | 0xA0 | 0xA8 | 0xB0 | 0xB8 => .pair .de
  | 0xA2 | 0xAA | 0xB2 | 0xBA => .pair .hl
  | _ => .nothing

/-- The footprints behind an index prefix and that of the bit page, where the operand is always in
memory. -/
def indexedBitsFootprint (x : Index) (op : UInt8) : Footprint :=
  if op &&& 0xC0 = 0x40 then .nothing else .indexed x

/-- The footprints behind an index prefix, by the second and the fourth byte. -/
def indexedFootprint (x : Index) (second fourth : UInt8) : Footprint :=
  if second = 0xCB then indexedBitsFootprint x fourth else mainFootprint (some x) second

/-- The footprint of the instruction with the given first, second and fourth byte. -/
def footprintOf (first second fourth : UInt8) : Footprint :=
  match first with
  | 0xCB => bitsFootprint second
  | 0xED => extendedFootprint second
  | 0xDD => indexedFootprint .ix second fourth
  | 0xFD => indexedFootprint .iy second fourth
  | op => mainFootprint none op

/-- The addresses that the instruction at the program counter of the registers `k` writes. -/
def instructionWrites (k : Registers) (memory : Memory) : List UInt16 :=
  let first := memory.read k.pc
  let footprint := footprintOf first (memory.read (k.pc + 1)) (memory.read (k.pc + 3))
  footprint.addresses k memory (operandStart first)

/-- The addresses that the next step writes: accepting an interrupt puts the program counter on the
stack, and waiting writes nothing. -/
def Processor.writes (p : Processor) (memory : Memory) : List UInt16 :=
  match p.accepts? with
  | some _ => p.registers.pushAddresses
  | none => if p.registers.halted = true then [] else instructionWrites p.registers memory

/-! ## The footprints of operations -/

/-- The footprint of a result that is written to an operand. -/
def Operand.footprint : Operand → Footprint
  | .register _ => .nothing
  | .atHL => .pair .hl
  | .atIndex x => .indexed x

/-- The footprint of a store through a pointer. -/
def Pointer.footprint : Pointer → Footprint
  | .bc => .pair .bc
  | .de => .pair .de
  | .direct => .immediate

/-- The footprint of an operation. -/
def Operation.footprint : Operation → Footprint
  | .load o _ | .loadImmediate o | .increment o | .decrement o | .shift _ o _ | .resetBit _ o _
  | .setBit _ o _ => o.footprint
  | .storeAccumulator target => target.footprint
  | .storePair _ => .immediateWord
  | .exchangeTop _ => .top
  | .push _ | .call | .restart _ => .push
  | .callIf condition => .pushIf condition
  | .rotateDigitsRight | .rotateDigitsLeft | .blockInput _ _ => .pair .hl
  | .blockTransfer _ _ => .pair .de
  | _ => .nothing

set_option maxRecDepth 4000 in
/-- The footprints of the main page are those of its operations. -/
lemma footprint_mainOperation (x : Option Index) (op : UInt8) (h : isPrefix op = false) :
    (mainOperation x op).footprint = mainFootprint x op := by
  revert op
  refine forall_byte ?_
  rcases x with _ | _ | _ <;> decide +kernel

set_option maxRecDepth 4000 in
lemma footprint_extendedOperation (op : UInt8) :
    (extendedOperation op).footprint = extendedFootprint op := by
  revert op
  exact forall_byte (by decide +kernel)

set_option maxRecDepth 4000 in
/-- On the page of shifts and single bits, the opcode tells whether the operand is in memory. -/
lemma footprint_bitsOperation (op : UInt8) :
    (bitsOperation (operandOfCode none (opcodeZ op)) none op).footprint = bitsFootprint op := by
  revert op
  exact forall_byte (by decide +kernel)

set_option maxRecDepth 4000 in
/-- A copy of the result in a register changes the footprint of no operation on indexed memory. -/
lemma footprint_indexedBits (x : Index) (copy : Option ByteRegister) (op : UInt8) :
    (bitsOperation (.atIndex x) copy op).footprint = indexedBitsFootprint x op := by
  have hx : opcodeX op = 1 ↔ op &&& 0xC0 = 0x40 := by
    revert op
    exact forall_byte (by decide +kernel)
  rw [indexedBitsFootprint]
  split
  · rw [bitsOperation, hx.2 ‹_›]
    rfl
  · simp only [bitsOperation]
    split
    · rfl
    · exact absurd (hx.1 ‹_›) ‹_›
    · rfl
    · rfl

/-- A byte that is no prefix has its footprint on the main page. -/
lemma footprintOf_of_main {first : UInt8} (h : isPrefix first = false) (second fourth : UInt8) :
    footprintOf first second fourth = mainFootprint none first :=
  match_of_main _ _ _ _ _ _ h

lemma footprintOf_index (x : Index) (second fourth : UInt8) :
    footprintOf x.prefixByte second fourth = indexedFootprint x second fourth := by
  cases x <;> rfl

/-- The footprints of all operations are those of the table. -/
lemma tabulates_footprint : Tabulates footprintOf Operation.footprint where
  main hfirst second fourth := by
    rw [footprintOf_of_main hfirst]
    exact footprint_mainOperation none _ hfirst
  bits _ _ := footprint_bitsOperation _
  extended _ _ := footprint_extendedOperation _
  indexed x second hsecond _ := by
    have hbits : second ≠ 0xCB := by
      rintro rfl
      cases hsecond
    rw [footprintOf_index, indexedFootprint, if_neg hbits]
    exact footprint_mainOperation (some x) _ hsecond
  indexedBits x _ := by
    rw [footprintOf_index, indexedFootprint, if_pos rfl]
    exact footprint_indexedBits x _ _
  lone x _ hsecond _ := by
    rw [footprintOf_index]
    rcases hsecond with rfl | rfl | rfl <;> rfl

/-- The footprint of an instruction is that of the table. -/
lemma Encoding.footprint_eq {code : Nat → UInt8} {i : Instruction} (h : Encoding code i) :
    i.operation.footprint = footprintOf (code 0) (code 1) (code 3) :=
  h.eq_table tabulates_footprint

/-! ## Operations and their stores -/

/-- The addresses in memory that a store writes. -/
def Store.addresses : Store → List UInt16
  | .nothing | .port _ _ => []
  | .byte a _ => [a]
  | .word a _ => [a, a + 1]
  | .push sp _ => [sp - 1, sp - 2]

/-- A store changes no byte of memory but those that it writes. -/
lemma Store.read_run (s : Store) (board : Board) {a : UInt16} (h : a ∉ s.addresses) :
    (s.run board).memory.read a = board.memory.read a := by
  cases s with
  | nothing | port => rfl
  | byte b v => exact Memory.read_write_of_ne _ _ (List.mem_singleton.not.1 h)
  | word b v =>
    simp only [addresses, List.mem_cons, List.not_mem_nil, or_false, not_or] at h
    obtain ⟨hlow, hhigh⟩ := h
    show ((board.memory.write b (low v)).write (b + 1) (high v)).read a = _
    rw [Memory.read_write_of_ne _ _ hhigh, Memory.read_write_of_ne _ _ hlow]
  | push sp v => exact board.memory.read_push_of_notMem v h

namespace Operand

variable (o : Operand) (d : Int8) (k : Registers)

/-- The address of an operand stays where it is when the result is copied plainly. -/
lemma address_setByteIf {copy : Option ByteRegister} (h : o.admitsCopy copy = true) (v : UInt8) :
    o.address d (k.setByteIf copy v) = o.address d k := by
  cases o with
  | register r => rfl
  | atHL =>
    cases copy with
    | none => rfl
    | some r => cases r <;> cases h
  | atIndex x => exact congrArg (fun w => displaced w d) (k.index_setByteIf h v x)

/-- The address of an operand depends neither on the flags nor on the fetch. -/
lemma address_fetched (f : Flags) (r : UInt8) (pc : UInt16) :
    o.address d { k with f, r, pc } = o.address d k := by
  cases o with
  | atIndex x => cases x <;> rfl
  | _ => rfl

variable {k}

/-- Writing an operand at its address before the instruction writes the byte of its footprint. -/
lemma addresses_write {k' : Registers} (v : UInt8) (memory : Memory) (start : Nat)
    (hd : o.isIndexed = true → d = (memory.read (k.pc + UInt16.ofNat start)).toInt8)
    (haddress : o.address d k' = o.address d k) :
    (o.write d k' v).store.addresses = o.footprint.addresses k memory start := by
  cases o with
  | register r => rfl
  | atHL => exact congrArg (fun a => [a]) haddress
  | atIndex x =>
    obtain rfl := hd rfl
    exact congrArg (fun a => [a]) haddress

end Operand

/-- A call that is made puts a word on the stack. -/
lemma Registers.addresses_callIf (k : Registers) (target : UInt16) (taken : Bool) :
    (k.callIf target taken).store.addresses = if taken = true then k.pushAddresses else [] := by
  cases taken <;> rfl

/-- Every operation writes the memory of its footprint, if its displacement and its immediate value
are found where the footprint looks for them. -/
lemma Operation.addresses_plan (op : Operation) (hcopy : op.copiesPlainly = true) (k : Registers)
    (r : UInt8) {d : Int8} {immediate : UInt16} (next : UInt16) (board : Board) (start : Nat)
    (hdisplacement : op.isIndexed = true → d = (MemoryBus.codeAt board k.pc start).toInt8)
    (himmediate : op.isIndexed = false → immediate =
      immediateValue (MemoryBus.codeAt board k.pc) start op.immediateSize) :
    ((op.plan d immediate { k with r, pc := next }).outcome board).store.addresses =
      op.footprint.addresses k board.memory start := by
  cases op with
  | load target source =>
    have hd : target.isIndexed = true → d = (MemoryBus.codeAt board k.pc start).toInt8 := by
      intro h
      exact hdisplacement (by rw [isIndexed, h, Bool.true_or])
    simp only [plan, Operand.outcome_read]
    exact target.addresses_write d _ _ start hd (target.address_fetched d k _ r next)
  | loadImmediate o =>
    exact o.addresses_write d _ _ start hdisplacement (o.address_fetched d k _ r next)
  | increment o | decrement o =>
    simp only [plan, Operand.outcome_read]
    exact o.addresses_write d _ _ start hdisplacement (o.address_fetched d k _ r next)
  | shift s o copy =>
    simp only [plan, Operand.outcome_read]
    refine o.addresses_write d _ _ start hdisplacement ?_
    refine (o.address_fetched d _ _ _ _).trans ?_
    rw [o.address_setByteIf d _ hcopy]
    exact o.address_fetched d k _ r next
  | resetBit n o copy | setBit n o copy =>
    simp only [plan, Operand.outcome_read]
    refine o.addresses_write d _ _ start hdisplacement ?_
    rw [o.address_setByteIf d _ hcopy]
    exact o.address_fetched d k _ r next
  | storeAccumulator target =>
    obtain rfl := himmediate rfl
    cases target <;> rfl
  | storePair p =>
    obtain rfl := himmediate rfl
    rfl
  | callIf condition => exact Registers.addresses_callIf _ _ _
  | jumpIf | jumpRelativeIf | countAndJump => rfl
  | retIf condition =>
    simp only [plan]
    split <;> rfl
  | combine | testBit =>
    simp only [plan, Operand.outcome_read]
    rfl
  | _ => rfl

/-! ## Memory after a step -/

/-- The instruction at the program counter stores at the addresses of the table. -/
lemma addresses_outcome (p : Processor) (board : Board) :
    (p.outcome board).store.addresses = instructionWrites p.registers board.memory := by
  set k := p.registers
  set code := MemoryBus.codeAt board k.pc
  have hi : Encoding code (decode code) := encoding_decode code
  have hfirst : board.memory.read k.pc = code 0 := (codeAt_zero board k.pc).symm
  have hsecond : board.memory.read (k.pc + 1) = code 1 := rfl
  have hfourth : board.memory.read (k.pc + 3) = code 3 := rfl
  have hcopy : (decode code).operation.copiesPlainly = true := copiesPlainly_operation _ _
  rw [instructionWrites, hfirst, hsecond, hfourth, ← hi.footprint_eq]
  exact (decode code).operation.addresses_plan hcopy k _ _ board _ hi.displacement_eq
    hi.immediate_eq

/-- **The memory frame.**  A step leaves every byte of memory as it is but those that the table gives
from the state before it. -/
theorem read_step (p : Processor) (board : Board) {a : UInt16} (h : a ∉ p.writes board.memory) :
    (p.step board).bus.memory.read a = board.memory.read a := by
  rw [Processor.writes] at h
  obtain ⟨i, haccepts, hstep⟩ | ⟨haccepts, hhalted, hstep⟩ | ⟨hready, hstep⟩ := p.step_cases board
  · rw [haccepts] at h
    have hstore : ((p.registers.accept i).outcome board).store =
        .push p.registers.sp p.registers.pc := by
      rw [Registers.outcome_accept]
    rw [hstep, Processor.acceptInterrupt, Plan.run_eq]
    refine Store.read_run _ board ?_
    rwa [show p.looked.registers = p.registers from rfl, hstore]
  · rw [hstep]
    rfl
  · rw [hready.accepts, hready.halted, ← addresses_outcome] at h
    rw [hstep, Processor.execute, Plan.run_eq]
    exact Store.read_run _ board h

/-- Behind an index prefix, the displacement of a loaded byte comes before it: only the byte at the
address that it leads to, here across the end of the address space, is written. -/
theorem read_step_loaded :
    let p : Processor := { registers := { Registers.powerOn with ix := 0xFFFF } }
    let memory : Memory :=
      (((Memory.zero.write 0 0xDD).write 1 0x36).write 2 0x7F).write 3 0xAA
    p.writes memory = [0x7E] ∧ 0x7F ∉ p.writes memory ∧
      (p.step ({ memory } : Board)).bus.memory.read 0x7F = memory.read 0x7F := by
  intro p memory
  have hwrites : p.writes memory = [0x7E] := by decide +kernel
  have houtside : 0x7F ∉ p.writes memory := by
    rw [hwrites]
    decide
  exact ⟨hwrites, houtside, read_step p { memory } houtside⟩

end Z80

import Mathlib.Tactic.Common
import Z80.Instruction.Decode

/-!
# Facts about opcode bytes

There are 256 opcodes on each page, so a fact about the operation that an opcode stands for is
decided by looking at all of them; `forall_byte` moves such a fact to the bytes, and
`forall_opcode` to the bytes on every page.  The file also says which page the first bytes of an
instruction select (`decode_main` to `decode_indexed`) and which opcodes of the main page work on the
memory at HL (`usesMemory`), the ones that an index prefix gives a displacement.
-/

namespace Z80

/-- A property of all bytes holds if it holds of the bytes numbered from 0 to 255. -/
lemma forall_byte {P : UInt8 → Prop} (h : ∀ n : Fin 256, P (UInt8.ofNat n)) (v : UInt8) : P v := by
  have hv : UInt8.ofNat v.toNat = v := UInt8.ofNat_toNat
  rw [← hv]
  exact h ⟨v.toNat, v.toNat_lt⟩

/-- The pages, with either index register. -/
def Page.all : List Page :=
  [.main, .lone, .bits, .extended, .indexed .ix, .indexed .iy, .indexedBits .ix, .indexedBits .iy]

lemma Page.mem_all (page : Page) : page ∈ all := by
  cases page with
  | indexed x | indexedBits x => cases x <;> decide
  | _ => decide

/-- A property of all opcodes on all pages holds if it holds of the bytes on each of them. -/
lemma forall_opcode {P : Page → UInt8 → Prop}
    (h : ∀ page ∈ Page.all, ∀ n : Fin 256, P page (UInt8.ofNat n)) (page : Page) (op : UInt8) :
    P page op :=
  forall_byte (h page page.mem_all) op

/-! ## The memory operand of the main page -/

/-- Opcodes of the main page whose operand is the byte at HL: counting it up or down, loading it
with an immediate byte, copying it from or to a register, and combining it with the accumulator. -/
def usesMemory (op : UInt8) : Bool :=
  op == 0x34 || op == 0x35 || op == 0x36 ||
    (0x40 ≤ op && op < 0x80 && op != 0x76 && (op % 8 == 6 || op / 8 % 8 == 6)) ||
    (0x80 ≤ op && op < 0xC0 && op % 8 == 6)

set_option maxRecDepth 4000 in
/-- Behind an index prefix, exactly the opcodes that use memory at HL work on indexed memory. -/
lemma isIndexed_mainOperation (x : Index) (op : UInt8) :
    (mainOperation (some x) op).isIndexed = usesMemory op := by
  revert op
  refine forall_byte ?_
  cases x <;> decide +kernel

set_option maxRecDepth 4000 in
/-- Without a prefix no opcode works on indexed memory. -/
lemma isIndexed_mainOperation_none (op : UInt8) : (mainOperation none op).isIndexed = false := by
  revert op
  exact forall_byte (by decide +kernel)

/-- Operations on single bytes work on indexed memory just if their operand is there. -/
lemma isIndexed_bitsOperation (o : Operand) (copy : Option ByteRegister) (op : UInt8) :
    (bitsOperation o copy op).isIndexed = o.isIndexed := by
  simp only [bitsOperation]
  split <;> rfl

/-! ## Copies -/

/-- Whether a result that is written to the operand may also be copied to the given register.  Only
the result of indexed memory is copied, and never to a half of an index register. -/
def Operand.admitsCopy : Operand → Option ByteRegister → Bool
  | _, none => true
  | .atIndex _, some (.indexHigh _) | .atIndex _, some (.indexLow _) => false
  | .atIndex _, some _ => true
  | .register _, some _ | .atHL, some _ => false

/-- Whether an operation copies its result only where that leaves the address of its operand as it
is. -/
def Operation.copiesPlainly : Operation → Bool
  | .shift _ o copy | .resetBit _ o copy | .setBit _ o copy => o.admitsCopy copy
  | _ => true

set_option maxRecDepth 4000 in
/-- Every operation of the pages copies its result plainly. -/
lemma copiesPlainly_operation (page : Page) (op : UInt8) :
    (page.operation op).copiesPlainly = true := by
  revert page op
  exact forall_opcode (by decide +kernel)

/-- Whether an operand is a register. -/
def Operand.isRegister : Operand → Bool
  | .register _ => true
  | .atHL | .atIndex _ => false

/-- Whether an operation does not copy memory to memory. -/
def Operation.usesRegister : Operation → Bool
  | .load target source => target.isRegister || source.isRegister
  | _ => true

set_option maxRecDepth 4000 in
/-- No operation of the pages copies memory to memory. -/
lemma usesRegister_operation (page : Page) (op : UInt8) :
    (page.operation op).usesRegister = true := by
  revert page op
  exact forall_opcode (by decide +kernel)

/-! ## The page of an instruction -/

/-- The byte of the prefix that selects an index register. -/
def Index.prefixByte : Index → UInt8
  | .ix => 0xDD
  | .iy => 0xFD

/-- The four bytes that select another page. -/
def isPrefix (v : UInt8) : Bool :=
  v == 0xCB || v == 0xDD || v == 0xED || v == 0xFD

/-- The prefixes, one by one. -/
lemma isPrefix_iff {v : UInt8} :
    isPrefix v = true ↔ v = 0xCB ∨ v = 0xDD ∨ v = 0xED ∨ v = 0xFD := by
  simp only [isPrefix, Bool.or_eq_true, beq_iff_eq, or_assoc]

/-- A table that goes by the prefixes has its general entry for every other byte. -/
lemma match_of_main {α : Type} (bits extended ix iy : α) (main : UInt8 → α) (first : UInt8) :
    isPrefix first = false →
      (match first with
        | 0xCB => bits
        | 0xED => extended
        | 0xDD => ix
        | 0xFD => iy
        | op => main op) = main first := by
  intro h
  split
  · cases h
  · cases h
  · cases h
  · cases h
  · rfl

/-- The prefix of the page of shifts and single bits comes before its opcode. -/
lemma decode_bits {code : Nat → UInt8} (h : code 0 = 0xCB) :
    decode code = decodeFrom .bits code 1 := by
  simp [decode, h]

/-- The prefix of the extended page comes before its opcode. -/
lemma decode_extended {code : Nat → UInt8} (h : code 0 = 0xED) :
    decode code = decodeFrom .extended code 1 := by
  simp [decode, h]

/-- An index prefix looks at the byte after it. -/
lemma decode_index {code : Nat → UInt8} (x : Index) (h : code 0 = x.prefixByte) :
    decode code = decodeIndexed x code := by
  cases x <;> simp [decode, h, Index.prefixByte]

/-- A byte that is no prefix is an opcode of the main page. -/
lemma decode_main {code : Nat → UInt8} (h : isPrefix (code 0) = false) :
    decode code = decodeFrom .main code 0 := by
  simp only [isPrefix, Bool.or_eq_false_iff, beq_eq_false_iff_ne] at h
  obtain ⟨⟨⟨hbits, hix⟩, hextended⟩, hiy⟩ := h
  simp [decode, hbits, hix, hextended, hiy]

/-- An index prefix before another one, or before that of the extended page, stands alone. -/
lemma decodeIndexed_lone {code : Nat → UInt8} (x : Index)
    (h : code 1 = 0xDD ∨ code 1 = 0xFD ∨ code 1 = 0xED) :
    decodeIndexed x code = { page := .lone, opcode := 0 } := by
  simp [decodeIndexed, h]

/-- Behind an index prefix and that of the bit page, the displacement comes before the opcode. -/
lemma decodeIndexed_bits {code : Nat → UInt8} (x : Index) (h : code 1 = 0xCB) :
    decodeIndexed x code =
      { page := .indexedBits x, opcode := code 3, displacement := (code 2).toInt8 } := by
  simp [decodeIndexed, h]

/-- Behind an index prefix, a byte that is no prefix is an opcode of the main page. -/
lemma decodeIndexed_main {code : Nat → UInt8} (x : Index) (h : isPrefix (code 1) = false) :
    decodeIndexed x code = decodeFrom (.indexed x) code 1 := by
  simp only [isPrefix, Bool.or_eq_false_iff, beq_eq_false_iff_ne] at h
  obtain ⟨⟨⟨hbits, hix⟩, hextended⟩, hiy⟩ := h
  simp [decodeIndexed, hbits, hix, hextended, hiy]

/-- Without a displacement, the immediate value follows the opcode. -/
lemma decodeFrom_of_plain (page : Page) (code : Nat → UInt8) (start : Nat)
    (h : (page.operation (code start)).isIndexed = false) :
    decodeFrom page code start =
      { page
        opcode := code start
        immediate :=
          immediateValue code (start + 1) (page.operation (code start)).immediateSize } := by
  simp [decodeFrom, h]

/-- The page of an instruction is the one it was decoded on. -/
@[simp] lemma page_decodeFrom (page : Page) (code : Nat → UInt8) (start : Nat) :
    (decodeFrom page code start).page = page := by
  simp only [decodeFrom]
  split <;> rfl

/-- The opcode of an instruction is the byte that was looked up. -/
@[simp] lemma opcode_decodeFrom (page : Page) (code : Nat → UInt8) (start : Nat) :
    (decodeFrom page code start).opcode = code start := by
  simp only [decodeFrom]
  split <;> rfl

/-- The operation of a decoded instruction is that of its opcode on the page. -/
@[simp] lemma operation_decodeFrom (page : Page) (code : Nat → UInt8) (start : Nat) :
    (decodeFrom page code start).operation = page.operation (code start) := by
  simp only [decodeFrom]
  split <;> rfl

/-! ## The operations that hold interrupts off -/

/-- The first bytes of an instruction that enables interrupts, which an index prefix does not
change. -/
def IsEnable (first second : UInt8) : Prop :=
  first = 0xFB ∨ (first = 0xDD ∨ first = 0xFD) ∧ second = 0xFB

/-- An index prefix that stands alone, before another one or before that of the extended page. -/
def IsLonePrefix (first second : UInt8) : Prop :=
  (first = 0xDD ∨ first = 0xFD) ∧ (second = 0xDD ∨ second = 0xFD ∨ second = 0xED)

/-- Whether an operation leaves something in the latches of the interrupt system. -/
def Operation.holdsOff : Operation → Bool
  | .enableInterrupts | .prefixByte => true
  | _ => false

set_option maxRecDepth 4000 in
/-- On the main page only one opcode enables interrupts, and none is a prefix that stands alone. -/
lemma holdsOff_mainOperation (x : Option Index) (op : UInt8) :
    (mainOperation x op = .enableInterrupts ↔ op = 0xFB) ∧
      mainOperation x op ≠ .prefixByte := by
  revert op
  refine forall_byte ?_
  rcases x with _ | _ | _ <;> decide +kernel

set_option maxRecDepth 4000 in
/-- Nothing on the extended page holds interrupts off. -/
lemma holdsOff_extendedOperation (op : UInt8) : (extendedOperation op).holdsOff = false := by
  revert op
  exact forall_byte (by decide +kernel)

/-- No operation on single bytes holds interrupts off. -/
lemma holdsOff_bitsOperation (o : Operand) (copy : Option ByteRegister) (op : UInt8) :
    (bitsOperation o copy op).holdsOff = false := by
  simp only [bitsOperation]
  split <;> rfl

/-- An operation that holds nothing off neither enables interrupts nor is a lone prefix. -/
lemma Operation.ne_of_holdsOff {op : Operation} (h : op.holdsOff = false) :
    op ≠ .enableInterrupts ∧ op ≠ .prefixByte := by
  constructor
  · rintro rfl
    cases h
  · rintro rfl
    cases h

/-! ## What follows the opcode -/

/-- What follows the opcode of an instruction is found `start` bytes after its first byte: the
displacement if it works on indexed memory, and the immediate value otherwise. -/
structure Instruction.Encoded (i : Instruction) (code : Nat → UInt8) (start : Nat) : Prop where
  /-- The displacement comes first. -/
  displacement : i.isIndexed = true → i.displacement = (code start).toInt8
  /-- Without a displacement, the immediate value comes first. -/
  immediate : i.isIndexed = false →
    i.immediate = immediateValue code start i.operation.immediateSize
  /-- Without a displacement, the instruction ends with the immediate value. -/
  length : i.isIndexed = false → i.length = start + i.operation.immediateSize

/-- An instruction whose opcode comes right after the prefixes of its page has the rest after it. -/
lemma encoded_decodeFrom (page : Page) (code : Nat → UInt8) :
    (decodeFrom page code page.prefixLength).Encoded code (page.prefixLength + 1) where
  displacement h := by
    rw [Instruction.isIndexed, operation_decodeFrom] at h
    simp [decodeFrom, h]
  immediate h := by
    rw [Instruction.isIndexed, operation_decodeFrom] at h
    simp [decodeFrom, h, Instruction.operation]
  length h := by
    simp [Instruction.length, h]

end Z80

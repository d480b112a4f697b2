import Z80.Proofs.Activity
import Z80.Proofs.Duration
import Z80.Proofs.Locality

/-!
# Decoded instructions are well formed

What is decoded, from whatever bytes, fits together: it is no longer than four bytes, it takes between 4 and
23 T-states, a displacement comes with an index register to add it to, and only what branches on a condition
or repeats can take longer than its base time.  `Instruction.WellFormed` lists these facts, on which
execution relies without checking them.

Some of them are facts about pages: `Page.isIndexed` and `Page.addsTime` are tables by opcode for what works
on indexed memory and for what may add time.  Others hold since decoding never looks up a prefix byte on the
main page, where it would find an entry without a meaning.
-/

namespace Z80

/-! ## Tables by opcode -/

namespace Page

/-- The opcodes of the page are those of the main page. -/
def isPlain : Page → Bool
  | .main | .lone | .indexed _ => true
  | .bits | .extended | .indexedBits _ => false

/-- Whether an opcode of a page works on indexed memory: behind an index prefix, just if it uses the memory at
HL without it, and behind two prefixes always. -/
def isIndexed (page : Page) (op : UInt8) : Bool :=
  match page with
  | .indexed _ => usesMemory op
  | .indexedBits _ => true
  | .main | .lone | .bits | .extended => false

/-- Whether an opcode of a page takes longer if it branches or repeats. -/
def addsTime (page : Page) (op : UInt8) : Bool :=
  match page with
  | .main | .indexed _ =>
    match op with
    -- Relative jumps on a condition, or while B counts down.
    | 0x10 | 0x20 | 0x28 | 0x30 | 0x38 => true
    -- Returns on a condition.
    | 0xC0 | 0xC8 | 0xD0 | 0xD8 | 0xE0 | 0xE8 | 0xF0 | 0xF8 => true
    -- Calls on a condition.
    | 0xC4 | 0xCC | 0xD4 | 0xDC | 0xE4 | 0xEC | 0xF4 | 0xFC => true
    | _ => false
  | .extended =>
    match op with
    -- Repeating block operations.
    | 0xB0 | 0xB1 | 0xB2 | 0xB3 | 0xB8 | 0xB9 | 0xBA | 0xBB => true
    | _ => false
  | .lone | .bits | .indexedBits _ => false

/-- The table of indexed memory is right. -/
lemma isIndexed_operation (page : Page) (op : UInt8) :
    (page.operation op).isIndexed = page.isIndexed op := by
  cases page with
  | main => exact isIndexed_mainOperation_none op
  | lone => rfl
  | bits => exact (isIndexed_bitsOperation _ _ op).trans (isIndexed_operandOfCode _)
  | extended => exact (immediateSize_extendedOperation op).2
  | indexed x => exact isIndexed_mainOperation x op
  | indexedBits x => exact isIndexed_bitsOperation (.atIndex x) _ op

set_option maxRecDepth 4000 in
/-- The table of added time is right. -/
lemma extraDuration_operation (page : Page) (op : UInt8) :
    (page.operation op).extraDuration ≠ 0 ↔ page.addsTime op = true := by
  revert page op
  exact forall_opcode (by decide +kernel)

/-- Each page has an opcode fetch for every byte up to the opcode, but that two prefixes count as one. -/
lemma fetches_le (page : Page) : page.fetches ≤ page.prefixLength + 1 := by
  cases page <;> exact Nat.le_of_ble_eq_true rfl

end Page

set_option maxRecDepth 4000 in
/-- Of all opcodes of the main page that are looked up, only zero stands for nothing. -/
lemma eq_zero_of_mainOperation_eq_nop (x : Option Index) (op : UInt8) :
    isPrefix op = false → mainOperation x op = .nop → op = 0 := by
  revert op
  refine forall_byte ?_
  rcases x with _ | _ | _ <;> decide +kernel

namespace Operation

/-- Only what works on indexed memory leaves its address in the latch. -/
lemma latchRule_eq_indexedAddress (op : Operation) :
    op.latchRule = .indexedAddress ↔ op.isIndexed = true := by
  have hplain : op.plainLatchRule ≠ .indexedAddress := by
    cases op with
    | blockTransfer _ repeating | blockSearch _ repeating => cases repeating <;> nofun
    | _ => nofun
  rw [latchRule]
  split
  · next h => exact iff_of_true rfl h
  · next h => exact iff_of_false hplain h

/-- A displacement and an immediate value are no longer than two bytes together. -/
lemma operandSize_le (op : Operation) : op.isIndexed.toNat + op.immediateSize ≤ 2 := by
  cases h : op.isIndexed with
  | true =>
    have hone := op.immediateSize_of_isIndexed h
    rw [Bool.toNat_true]
    omega
  | false =>
    rw [Bool.toNat_false, Nat.zero_add]
    cases op with
    | loadAccumulator p | storeAccumulator p => cases p <;> decide
    | _ => exact Nat.le_of_ble_eq_true rfl

end Operation

namespace Instruction

variable (i : Instruction)

/-- The opcode fetches of an instruction are bytes of it. -/
lemma fetches_le_length : i.page.fetches ≤ i.length := by
  have hfetches := i.page.fetches_le
  rw [length]
  omega

/-- No instruction is longer than four bytes. -/
lemma length_le : i.length ≤ 4 := by
  have hsize := i.operation.operandSize_le
  rw [length, isIndexed]
  cases hpage : i.page with
  | indexedBits x =>
    -- Behind two prefixes there is a displacement, but no immediate value.
    have hop : i.operation =
        bitsOperation (.atIndex x) (registerOfCode? none (opcodeZ i.opcode)) i.opcode := by
      rw [operation, hpage]
      rfl
    rw [hop, isIndexed_bitsOperation, immediateSize_bitsOperation]
    exact Nat.le_refl 4
  | main | lone | bits | extended | indexed x =>
    simp only [Page.prefixLength]
    omega

/-! ## Index prefixes that stand alone -/

/-- The instruction is one byte long and does nothing but count the refresh counter up, go on, and hold
interrupts off for one look. -/
structure StandsAlone : Prop where
  /-- It is one byte long. -/
  length : i.length = 1
  /-- Its opcode is zero, like that of the instruction that does nothing. -/
  opcode : i.opcode = 0
  /-- It has no displacement. -/
  displacement : i.displacement = 0
  /-- It has no immediate value. -/
  immediate : i.immediate = 0
  /-- It takes as long as an opcode fetch. -/
  duration : i.duration = 4
  /-- It never takes longer. -/
  extra : i.extraDuration = 0
  /-- It is one opcode fetch. -/
  fetches : i.page.fetches = 1
  /-- It leaves the address latch alone. -/
  latch : i.operation.latchRule = .unchanged
  /-- It does nothing else to registers, memory and ports. -/
  plan : ∀ k, i.plan k = .done { registers := i.fetched k }
  /-- The next look finds nothing. -/
  holds : ∀ k, i.operation.latchInterrupts k = k.hold

/-! ## Well-formed instructions -/

/-- What holds of an instruction that was decoded from bytes, of which the first one is given. -/
structure WellFormed (first : UInt8) : Prop where
  /-- Its opcode fetches are bytes of it. -/
  fetches : i.page.fetches ≤ i.length
  /-- It has at most four bytes. -/
  length : i.length ≤ 4
  /-- It takes at least as long as an opcode fetch. -/
  shortest : 4 ≤ i.duration
  /-- It takes at most 23 T-states, also if it branches or repeats. -/
  longest : i.duration + i.extraDuration ≤ 23
  /-- Without a prefix and behind an index prefix, its opcode is no prefix. -/
  opcode : i.page.isPlain = true → isPrefix i.opcode = false
  /-- So the entry that was looked up has a time, and stands for nothing only if that is what opcode zero
  does. -/
  entry : i.page.isPlain = true →
    mainTime i.opcode ≠ 0 ∧ (i.operation = .nop → i.opcode = 0)
  /-- It leaves the address of indexed memory in the latch just if it works there. -/
  latch : i.operation.latchRule = .indexedAddress ↔ i.isIndexed = true
  /-- What works on indexed memory is told by page and opcode. -/
  indexed : i.isIndexed = i.page.isIndexed i.opcode
  /-- It then has an index register. -/
  index : i.isIndexed = true → i.page.index.isSome = true
  /-- Only then it has a displacement. -/
  displacement : i.isIndexed = false → i.displacement = 0
  /-- What may add time is told by page and opcode. -/
  extra : i.extraDuration ≠ 0 ↔ i.page.addsTime i.opcode = true
  /-- If its first byte is that of an index prefix and it has no prefix, it is a prefix that stands alone. -/
  lone : i.page.prefixLength = 0 ∧ (first = 0xDD ∨ first = 0xFD) ↔ i.page = .lone
  /-- A prefix that stands alone does nothing but hold interrupts off. -/
  standsAlone : i.page = .lone → i.StandsAlone

end Instruction

variable {code : Nat → UInt8} {i : Instruction}

/-- Without a prefix and behind an index prefix, what was looked up is no prefix. -/
lemma Encoding.isPrefix_opcode (h : Encoding code i) (hplain : i.page.isPlain = true) :
    isPrefix i.opcode = false := by
  cases h with
  | main hfirst => rwa [opcode_decodeFrom]
  | indexed x hfirst hsecond => rwa [opcode_decodeFrom]
  | lone x hfirst hsecond => rfl
  | bits | extended =>
    rw [page_decodeFrom] at hplain
    cases hplain
  | indexedBits => cases hplain

/-- What does not work on indexed memory has no displacement. -/
lemma Encoding.displacement_eq_zero (h : Encoding code i) (hplain : i.isIndexed = false) :
    i.displacement = 0 := by
  have hdecoded (page : Page) (start : Nat)
      (hplain : (decodeFrom page code start).isIndexed = false) :
      (decodeFrom page code start).displacement = 0 := by
    rw [Instruction.isIndexed, operation_decodeFrom] at hplain
    simp [decodeFrom, hplain]
  cases h with
  | main | bits | extended | indexed => exact hdecoded _ _ hplain
  | indexedBits x =>
    rw [Instruction.isIndexed, Instruction.operation, Page.isIndexed_operation] at hplain
    cases hplain
  | lone => rfl

/-- An instruction without a prefix, whose first byte is an index prefix, is that prefix standing alone. -/
lemma Encoding.lone_iff_first (h : Encoding code i) :
    i.page.prefixLength = 0 ∧ (code 0 = 0xDD ∨ code 0 = 0xFD) ↔ i.page = .lone := by
  cases h with
  | main hfirst =>
    rw [← Bool.not_eq_true, isPrefix_iff] at hfirst
    rw [page_decodeFrom]
    exact iff_of_false (by tauto) nofun
  | lone x hfirst =>
    refine iff_of_true ⟨rfl, ?_⟩ rfl
    rw [hfirst]
    cases x <;> decide
  | bits | extended | indexed =>
    rw [page_decodeFrom]
    exact iff_of_false nofun nofun
  | indexedBits => exact iff_of_false nofun nofun

/-- A prefix that stands alone does nothing but hold interrupts off. -/
lemma Encoding.standsAlone (h : Encoding code i) (hlone : i.page = .lone) : i.StandsAlone := by
  cases h with
  | lone => exact ⟨rfl, rfl, rfl, rfl, rfl, rfl, rfl, rfl, fun _ => rfl, fun _ => rfl⟩
  | main | bits | extended | indexed =>
    rw [page_decodeFrom] at hlone
    cases hlone
  | indexedBits => cases hlone

/-- On the main page, an entry that is looked up has a time, and only entry zero does nothing. -/
lemma Instruction.entry_of_plain (hplain : i.page.isPlain = true) (hopcode : isPrefix i.opcode = false) :
    mainTime i.opcode ≠ 0 ∧ (i.operation = .nop → i.opcode = 0) := by
  have htime := (mainOperation none i.opcode).four_le_duration
  rw [duration_mainOperation i.opcode hopcode] at htime
  refine ⟨by omega, fun hnop => ?_⟩
  rw [operation] at hnop
  cases hpage : i.page with
  | main =>
    rw [hpage] at hnop
    exact eq_zero_of_mainOperation_eq_nop none _ hopcode hnop
  | indexed x =>
    rw [hpage] at hnop
    exact eq_zero_of_mainOperation_eq_nop (some x) _ hopcode hnop
  | lone =>
    rw [hpage] at hnop
    cases hnop
  | bits | extended | indexedBits =>
    rw [hpage] at hplain
    cases hplain

/-- **Decoded instructions are well formed.**  Whatever bytes a bus has, what is decoded at an address is well
formed. -/
theorem wellFormed_decodeAt {β : Type} [MemoryBus β] (bus : β) (pc : UInt16) :
    (decodeAt bus pc).WellFormed (MemoryBus.peek bus pc) := by
  have h : Encoding (MemoryBus.codeAt bus pc) (decodeAt bus pc) := encoding_decode _
  set i := decodeAt bus pc
  have hindexed : i.isIndexed = i.page.isIndexed i.opcode := i.page.isIndexed_operation i.opcode
  refine ⟨i.fetches_le_length, i.length_le, i.four_le_duration, i.duration_add_extraDuration_le,
    h.isPrefix_opcode, fun hplain => Instruction.entry_of_plain hplain (h.isPrefix_opcode hplain),
    i.operation.latchRule_eq_indexedAddress, hindexed, fun hmemory => ?_, h.displacement_eq_zero,
    i.page.extraDuration_operation i.opcode, ?_, h.standsAlone⟩
  · rw [hindexed] at hmemory
    cases hpage : i.page with
    | indexed | indexedBits => rfl
    | main | lone | bits | extended =>
      rw [hpage] at hmemory
      cases hmemory
  · rw [← MemoryBus.codeAt_first]
    exact h.lone_iff_first

end Z80

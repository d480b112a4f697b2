import Z80.Proofs.Encoding
import Z80.Proofs.Step

/-!
# Decoding looks at the encoding only

An instruction is decided by its own bytes and by nothing else.  Where it lies, on which bus, and what comes
behind it does not matter, and neither does the end of the address space.  The one exception is an index
prefix that stands alone: it is one byte long, and only the byte after it shows that it does.

`Instruction.reach` counts the bytes that are looked at.  `Encoding.congr` says that bytes that agree as far
as that give an encoding of the same instruction, and `Encoding.located` where in those bytes opcode,
displacement and immediate value lie.
-/

namespace Z80

/-! ## The bytes that are looked at -/

/-- The distance from the first byte of an instruction to its opcode.  Behind two prefixes, the displacement
comes in between. -/
def Page.opcodeOffset : Page → Nat
  | .main | .lone => 0
  | .bits | .extended | .indexed _ => 1
  | .indexedBits _ => 3

namespace Instruction

/-- The number of bytes that decide on an instruction: its own, and also the byte after an index prefix that
stands alone. -/
def reach (i : Instruction) : Nat :=
  match i.page with
  | .lone => 2
  | _ => i.length

/-- The parts of an instruction lie among the bytes `code`, within its length.  An index prefix that stands
alone has no opcode. -/
structure Located (i : Instruction) (code : Nat → UInt8) : Prop where
  /-- The opcode. -/
  opcode : i.page ≠ .lone →
    i.opcode = code i.page.opcodeOffset ∧ i.page.opcodeOffset < i.length
  /-- The displacement lies behind the first two bytes. -/
  displacement : i.isIndexed = true → i.displacement = (code 2).toInt8 ∧ 2 < i.length
  /-- The immediate value comes last. -/
  immediate : i.immediate =
      immediateValue code (i.length - i.operation.immediateSize) i.operation.immediateSize ∧
    i.operation.immediateSize ≤ i.length

end Instruction

/-- An index prefix that stands alone is one byte long, and two bytes decide on it. -/
lemma Instruction.reach_of_lone {i : Instruction} (h : i.page = .lone) :
    i.reach = 2 ∧ i.length = 1 := by
  rw [reach, length, isIndexed, operation, h]
  exact ⟨rfl, rfl⟩

/-- Everything else is decided by its own bytes. -/
lemma Instruction.reach_of_ne_lone {i : Instruction} (h : i.page ≠ .lone) : i.reach = i.length := by
  unfold reach
  split
  · contradiction
  · rfl

/-! ## Bytes that agree -/

variable {code code' : Nat → UInt8}

/-- An immediate value depends on as many bytes as it has. -/
lemma immediateValue_congr {start size : Nat} (h : ∀ n < start + size, code' n = code n) :
    immediateValue code' start size = immediateValue code start size := by
  match size with
  | 0 => rfl
  | 1 =>
    have hbyte : code' start = code start := h start (by omega)
    rw [immediateValue, immediateValue, hbyte]
  | size + 2 =>
    have hlow : code' start = code start := h start (by omega)
    have hhigh : code' (start + 1) = code (start + 1) := h (start + 1) (by omega)
    show word (code' (start + 1)) (code' start) = word (code (start + 1)) (code start)
    rw [hlow, hhigh]

/-- What is found on a page depends on the opcode and on what that says comes behind. -/
lemma decodeFrom_congr (page : Page) (start : Nat)
    (h : ∀ n < start + 1 + (page.operation (code start)).isIndexed.toNat +
      (page.operation (code start)).immediateSize, code' n = code n) :
    decodeFrom page code' start = decodeFrom page code start := by
  have hopcode : code' start = code start := h start (by omega)
  simp only [decodeFrom, hopcode]
  set size := (page.operation (code start)).immediateSize
  cases hindexed : (page.operation (code start)).isIndexed with
  | false =>
    rw [hindexed, Bool.toNat_false] at h
    have himmediate : immediateValue code' (start + 1) size = immediateValue code (start + 1) size :=
      immediateValue_congr fun n hn => h n (by omega)
    simp [himmediate]
  | true =>
    rw [hindexed, Bool.toNat_true] at h
    have hdisplacement : code' (start + 1) = code (start + 1) := h (start + 1) (by omega)
    have himmediate : immediateValue code' (start + 2) size = immediateValue code (start + 2) size :=
      immediateValue_congr fun n hn => h n (by omega)
    simp [hdisplacement, himmediate]

/-- Where the opcode comes right after the prefixes, an instruction reaches as far as its opcode says. -/
lemma reach_decodeFrom (page : Page) (start : Nat) (hpage : page ≠ .lone) :
    (decodeFrom page code start).reach =
      page.prefixLength + 1 + (page.operation (code start)).isIndexed.toNat +
        (page.operation (code start)).immediateSize := by
  rw [Instruction.reach_of_ne_lone (by rwa [page_decodeFrom]), length_decodeFrom]

/-- What is found right after the prefixes of a page depends on the bytes that it reaches. -/
lemma decodeFrom_congr_of_reach (page : Page) (start : Nat) (hpage : page ≠ .lone)
    (hstart : page.prefixLength = start)
    (h : ∀ n < (decodeFrom page code start).reach, code' n = code n) :
    decodeFrom page code' start = decodeFrom page code start := by
  rw [reach_decodeFrom page start hpage, hstart] at h
  exact decodeFrom_congr page start h

/-- Bytes encode one instruction. -/
lemma Encoding.decode_eq {i : Instruction} (h : Encoding code i) : decode code = i := by
  cases h with
  | main hfirst => exact decode_main hfirst
  | bits hfirst => exact decode_bits hfirst
  | extended hfirst => exact decode_extended hfirst
  | indexed x hfirst hsecond => rw [decode_index x hfirst, decodeIndexed_main x hsecond]
  | indexedBits x hfirst hsecond => rw [decode_index x hfirst, decodeIndexed_bits x hsecond]
  | lone x hfirst hsecond => rw [decode_index x hfirst, decodeIndexed_lone x hsecond]

/-- An instruction behind two prefixes is four bytes long. -/
lemma length_indexedBits (x : Index) (hfirst : code 0 = x.prefixByte) (hsecond : code 1 = 0xCB) :
    Instruction.length
      { page := .indexedBits x, opcode := code 3, displacement := (code 2).toInt8 } = 4 := by
  have hlength := (Encoding.indexedBits x hfirst hsecond).length_eq
  rw [hfirst, hsecond] at hlength
  rw [hlength]
  cases x <;> rfl

/-- The first byte is always looked at, and behind a prefix the second one is, too. -/
lemma Encoding.lt_reach {i : Instruction} (h : Encoding code i) :
    0 < i.reach ∧ (isPrefix (code 0) = true → 1 < i.reach) := by
  have hprefixed (page : Page) (hpage : page ≠ .lone) (hlength : page.prefixLength = 1) :
      1 < (decodeFrom page code 1).reach := by
    rw [reach_decodeFrom page 1 hpage, hlength]
    omega
  have hboth {i : Instruction} (h : 1 < i.reach) :
      0 < i.reach ∧ (isPrefix (code 0) = true → 1 < i.reach) := ⟨by omega, fun _ => h⟩
  cases h with
  | main hfirst =>
    rw [reach_decodeFrom .main 0 nofun, hfirst]
    exact ⟨by omega, nofun⟩
  | bits => exact hboth (hprefixed .bits nofun rfl)
  | extended => exact hboth (hprefixed .extended nofun rfl)
  | indexed x => exact hboth (hprefixed (.indexed x) nofun rfl)
  | indexedBits x hfirst hsecond =>
    refine hboth (Nat.lt_of_lt_of_eq (by decide) (length_indexedBits x hfirst hsecond).symm)
  | lone => exact hboth Nat.one_lt_two

/-- Bytes that agree as far as an instruction reaches encode the same instruction. -/
lemma Encoding.congr {i : Instruction} (hi : Encoding code i)
    (h : ∀ n < i.reach, code' n = code n) : Encoding code' i := by
  obtain ⟨hreach, hreachSecond⟩ := hi.lt_reach
  have hsame : code' 0 = code 0 := h 0 hreach
  have hsameSecond (x : Index) (hfirst : code 0 = x.prefixByte) : code' 1 = code 1 := by
    refine h 1 (hreachSecond ?_)
    rw [hfirst]
    cases x <;> rfl
  cases hi with
  | main hfirst =>
    rw [← decodeFrom_congr_of_reach .main 0 nofun rfl h]
    exact .main (by rw [hsame, hfirst])
  | bits hfirst =>
    rw [← decodeFrom_congr_of_reach .bits 1 nofun rfl h]
    exact .bits (hsame.trans hfirst)
  | extended hfirst =>
    rw [← decodeFrom_congr_of_reach .extended 1 nofun rfl h]
    exact .extended (hsame.trans hfirst)
  | indexed x hfirst hsecond =>
    rw [← decodeFrom_congr_of_reach (.indexed x) 1 nofun rfl h]
    exact .indexed x (hsame.trans hfirst) (by rw [hsameSecond x hfirst, hsecond])
  | indexedBits x hfirst hsecond =>
    have hlength := length_indexedBits x hfirst hsecond
    have hthird : code' 2 = code 2 := h 2 (Nat.lt_of_lt_of_eq (by decide) hlength.symm)
    have hfourth : code' 3 = code 3 := h 3 (Nat.lt_of_lt_of_eq (by decide) hlength.symm)
    rw [← hthird, ← hfourth]
    exact .indexedBits x (hsame.trans hfirst) ((hsameSecond x hfirst).trans hsecond)
  | lone x hfirst hsecond =>
    refine .lone x (hsame.trans hfirst) ?_
    rwa [hsameSecond x hfirst]

/-! ## Where the parts lie -/

/-- The parts of what is found right after the prefixes of a page lie behind each other. -/
lemma located_decodeFrom (page : Page) (start : Nat) (hstart : page.prefixLength = start)
    (hoffset : page.opcodeOffset = start)
    (hindexed : (page.operation (code start)).isIndexed = true → start = 1) :
    (decodeFrom page code start).Located code := by
  have hlength := length_decodeFrom page code start
  set size := (page.operation (code start)).immediateSize with hsize
  refine ⟨fun _ => ?_, fun h => ?_, ?_⟩
  · rw [page_decodeFrom, opcode_decodeFrom, hoffset]
    exact ⟨rfl, by omega⟩
  · rw [Instruction.isIndexed, operation_decodeFrom] at h
    have hone := hindexed h
    subst hone
    rw [h, Bool.toNat_true] at hlength
    exact ⟨by simp [decodeFrom, h], by omega⟩
  · rw [operation_decodeFrom, ← hsize]
    refine ⟨?_, by omega⟩
    cases h : (page.operation (code start)).isIndexed with
    | false =>
      have hdistance : (decodeFrom page code start).length - size = start + 1 := by
        rw [hlength, h, Bool.toNat_false]
        omega
      rw [hdistance]
      simp [decodeFrom, h, size]
    | true =>
      have hdistance : (decodeFrom page code start).length - size = start + 2 := by
        rw [hlength, h, Bool.toNat_true]
        omega
      rw [hdistance]
      simp [decodeFrom, h, size]

/-- The parts of an instruction lie among its bytes. -/
lemma Encoding.located {i : Instruction} (h : Encoding code i) : i.Located code := by
  cases h with
  | main hfirst =>
    refine located_decodeFrom .main 0 rfl rfl fun h => ?_
    rw [Page.operation, isIndexed_mainOperation_none] at h
    cases h
  | bits hfirst => exact located_decodeFrom .bits 1 rfl rfl fun _ => rfl
  | extended hfirst => exact located_decodeFrom .extended 1 rfl rfl fun _ => rfl
  | indexed x hfirst hsecond => exact located_decodeFrom (.indexed x) 1 rfl rfl fun _ => rfl
  | indexedBits x hfirst hsecond =>
    have hlength := length_indexedBits x hfirst hsecond
    have hsize : Operation.immediateSize (Instruction.operation
        { page := .indexedBits x, opcode := code 3, displacement := (code 2).toInt8 }) = 0 :=
      immediateSize_bitsOperation _ _ _
    refine ⟨fun _ => ⟨rfl, ?_⟩, fun _ => ⟨rfl, ?_⟩, ?_, ?_⟩
    · exact Nat.lt_of_lt_of_eq (show 3 < 4 by decide) hlength.symm
    · exact Nat.lt_of_lt_of_eq (show 2 < 4 by decide) hlength.symm
    · rw [hsize]
      rfl
    · rw [hsize]
      exact Nat.zero_le _
  | lone x hfirst hsecond =>
    exact ⟨fun h => absurd rfl h, fun h => absurd h Bool.false_ne_true, rfl, Nat.zero_le _⟩

/-! ## Any bus and any address -/

/-- No opcode of another page acts as an index prefix that stands alone. -/
lemma Page.operation_eq_prefixByte {page : Page} {op : UInt8} :
    page.operation op = .prefixByte ↔ page = .lone := by
  cases page with
  | main => exact iff_of_false (holdsOff_mainOperation none op).2 nofun
  | lone => exact iff_of_true rfl rfl
  | bits | indexedBits x =>
    exact iff_of_false (Operation.ne_of_holdsOff (holdsOff_bitsOperation _ _ op)).2 nofun
  | extended => exact iff_of_false (Operation.ne_of_holdsOff (holdsOff_extendedOperation op)).2 nofun
  | indexed x => exact iff_of_false (holdsOff_mainOperation (some x) op).2 nofun

/-- The first two bytes of an instruction tell whether it is an index prefix that stands alone. -/
lemma Encoding.lone_iff {i : Instruction} (h : Encoding code i) :
    i.page = .lone ↔ IsLonePrefix (code 0) (code 1) := by
  rw [← h.holdsOff_iff.2, Instruction.operation, Page.operation_eq_prefixByte]

/-- **Decoding depends on the encoding alone.**  On two buses, at two addresses, bytes that agree as far as
the instruction at the first one reaches are decoded to the same instruction.  That is as far as its length,
but for an index prefix that stands alone, where the byte after it is looked at as well.  Opcode,
displacement and immediate value are bytes of the instruction. -/
theorem decodeAt_local {β β' : Type} [MemoryBus β] [MemoryBus β'] (bus : β) (bus' : β')
    (pc pc' : UInt16)
    (h : ∀ n < (decodeAt bus pc).reach,
      MemoryBus.peek bus' (pc' + UInt16.ofNat n) = MemoryBus.peek bus (pc + UInt16.ofNat n)) :
    let i := decodeAt bus pc
    let lone := IsLonePrefix (MemoryBus.peek bus pc) (MemoryBus.peek bus (pc + 1))
    decodeAt bus' pc' = i ∧
    (lone → i.reach = 2 ∧ i.length = 1) ∧ (¬ lone → i.reach = i.length) ∧
    i.Located (MemoryBus.codeAt bus pc) := by
  intro i lone
  have hi : Encoding (MemoryBus.codeAt bus pc) i := encoding_decode _
  have hlone : i.page = .lone ↔ lone := by
    rw [hi.lone_iff, MemoryBus.codeAt_first]
    rfl
  rw [← hlone]
  exact ⟨(hi.congr h).decode_eq, Instruction.reach_of_lone, Instruction.reach_of_ne_lone, hi.located⟩

/-- A load of indexed memory lies around the end of one memory and in the middle of another one.  Behind it
stands a prefix in the first and a halt in the second. -/
theorem decodeAt_local_wrap :
    let memory := ((((Memory.zero.write 0xFFFE 0xDD).write 0xFFFF 0x36).write 0 0xFB).write 1
      0x99).write 2 0xCB
    let other := ((((Memory.zero.write 0x1000 0xDD).write 0x1001 0x36).write 0x1002 0xFB).write 0x1003
      0x99).write 0x1004 0x76
    let i : Instruction :=
      { page := .indexed .ix, opcode := 0x36, displacement := -5, immediate := 0x99 }
    decodeAt memory 0xFFFE = i ∧ i.reach = 4 ∧
    (∀ n < (decodeAt memory 0xFFFE).reach,
      MemoryBus.peek other (0x1000 + UInt16.ofNat n) = MemoryBus.peek memory (0xFFFE + UInt16.ofNat n)) ∧
    decodeAt other 0x1000 = i := by
  intro memory other i
  have hfirst : MemoryBus.codeAt memory 0xFFFE 0 = 0xDD := by
    simp [MemoryBus.codeAt, MemoryBus.peek, memory, Memory.read_write]
  have hsecond : MemoryBus.codeAt memory 0xFFFE 1 = 0x36 := by
    simp [MemoryBus.codeAt, MemoryBus.peek, memory, Memory.read_write]
  have hthird : MemoryBus.codeAt memory 0xFFFE 2 = 0xFB := by
    simp [MemoryBus.codeAt, MemoryBus.peek, memory, Memory.read_write]
  have hfourth : MemoryBus.codeAt memory 0xFFFE 3 = 0x99 := by
    simp [MemoryBus.codeAt, MemoryBus.peek, memory, Memory.read_write]
  have hdecode : decodeAt memory 0xFFFE = i := by
    rw [decodeAt, decode_index .ix hfirst, decodeIndexed_main .ix (by rw [hsecond]; rfl), decodeFrom,
      hsecond]
    show Instruction.mk _ _ (MemoryBus.codeAt memory 0xFFFE 2).toInt8
      (MemoryBus.codeAt memory 0xFFFE 3).toUInt16 = i
    rw [hthird, hfourth]
    rfl
  have hreach : i.reach = 4 := by decide +kernel
  have hagree : ∀ n < (decodeAt memory 0xFFFE).reach, MemoryBus.peek other (0x1000 + UInt16.ofNat n) =
      MemoryBus.peek memory (0xFFFE + UInt16.ofNat n) := by
    intro n hn
    rw [hdecode, hreach] at hn
    obtain rfl | rfl | rfl | rfl : n = 0 ∨ n = 1 ∨ n = 2 ∨ n = 3 := by omega
    all_goals simp [MemoryBus.peek, memory, other, Memory.read_write]
  refine ⟨hdecode, hreach, hagree, ?_⟩
  rw [← hdecode]
  exact (decodeAt_local memory other 0xFFFE 0x1000 hagree).1

end Z80

import Z80.Proofs.Opcode

/-!
# How instructions are encoded

An instruction is found in one of six ways: on the main page, behind one of the three prefixes that
lead to a page of their own, behind two prefixes, or as an index prefix that stands alone.
`Encoding` lists them, so that a fact about whatever is found at an address is proved case by case
(`encoding_decode`).

What is said of instructions opcode by opcode is said in a table by their first, second and fourth
bytes.  `Tabulates` collects what has to be compared for that, one law for each page, and
`Encoding.eq_table` carries it over to whatever is found.

The first two bytes of an instruction tell how long it is.  `encodedLength` is a table of that by
opcode bytes, without looking at what the opcodes stand for, and `Encoding.length_eq` says that
decoding keeps to it.
-/

namespace Z80

/-! ## The ways to find an instruction -/

/-- The instruction is found in the bytes `code` in one of the six ways. -/
inductive Encoding (code : Nat → UInt8) : Instruction → Prop
  /-- Without a prefix. -/
  | main (hfirst : isPrefix (code 0) = false) : Encoding code (decodeFrom .main code 0)
  /-- Behind the prefix of the page of shifts and single bits. -/
  | bits (hfirst : code 0 = 0xCB) : Encoding code (decodeFrom .bits code 1)
  /-- Behind the prefix of the extended page. -/
  | extended (hfirst : code 0 = 0xED) : Encoding code (decodeFrom .extended code 1)
  /-- Behind an index prefix. -/
  | indexed (x : Index) (hfirst : code 0 = x.prefixByte) (hsecond : isPrefix (code 1) = false) :
    Encoding code (decodeFrom (.indexed x) code 1)
  /-- Behind an index prefix and that of the bit page. -/
  | indexedBits (x : Index) (hfirst : code 0 = x.prefixByte) (hsecond : code 1 = 0xCB) :
    Encoding code
      { page := .indexedBits x, opcode := code 3, displacement := (code 2).toInt8 }
  /-- An index prefix that stands alone. -/
  | lone (x : Index) (hfirst : code 0 = x.prefixByte)
    (hsecond : code 1 = 0xDD ∨ code 1 = 0xFD ∨ code 1 = 0xED) :
    Encoding code { page := .lone, opcode := 0 }

/-- What an index prefix leads to is found in one of the last three ways. -/
lemma encoding_decodeIndexed {code : Nat → UInt8} (x : Index) (hfirst : code 0 = x.prefixByte) :
    Encoding code (decodeIndexed x code) := by
  cases hselect : isPrefix (code 1) with
  | false =>
    rw [decodeIndexed_main x hselect]
    exact .indexed x hfirst hselect
  | true =>
    by_cases hlone : code 1 = 0xDD ∨ code 1 = 0xFD ∨ code 1 = 0xED
    · rw [decodeIndexed_lone x hlone]
      exact .lone x hfirst hlone
    · have hbits : code 1 = 0xCB := by
        rw [isPrefix_iff] at hselect
        tauto
      rw [decodeIndexed_bits x hbits]
      exact .indexedBits x hfirst hbits

/-- Every instruction is found in one of the six ways. -/
lemma encoding_decode (code : Nat → UInt8) : Encoding code (decode code) := by
  cases hselect : isPrefix (code 0) with
  | false =>
    rw [decode_main hselect]
    exact .main hselect
  | true =>
    rw [isPrefix_iff] at hselect
    rcases hselect with hbits | hix | hextended | hiy
    · rw [decode_bits hbits]
      exact .bits hbits
    · rw [decode_index .ix hix]
      exact encoding_decodeIndexed .ix hix
    · rw [decode_extended hextended]
      exact .extended hextended
    · rw [decode_index .iy hiy]
      exact encoding_decodeIndexed .iy hiy

/-! ## Tables by opcode bytes

The operation of an instruction is found by the first, the second and the fourth byte at most.
-/

/-- A table by opcode bytes says what `f` says of the operations of all pages. -/
structure Tabulates {α : Type} (table : UInt8 → UInt8 → UInt8 → α) (f : Operation → α) : Prop where
  /-- Without a prefix. -/
  main {first : UInt8} (hfirst : isPrefix first = false) (second fourth : UInt8) :
    f (Page.main.operation first) = table first second fourth
  /-- Behind the prefix of the page of shifts and single bits. -/
  bits (second fourth : UInt8) : f (Page.bits.operation second) = table 0xCB second fourth
  /-- Behind the prefix of the extended page. -/
  extended (second fourth : UInt8) : f (Page.extended.operation second) = table 0xED second fourth
  /-- Behind an index prefix. -/
  indexed (x : Index) {second : UInt8} (hsecond : isPrefix second = false) (fourth : UInt8) :
    f ((Page.indexed x).operation second) = table x.prefixByte second fourth
  /-- Behind an index prefix and that of the bit page. -/
  indexedBits (x : Index) (fourth : UInt8) :
    f ((Page.indexedBits x).operation fourth) = table x.prefixByte 0xCB fourth
  /-- An index prefix that stands alone. -/
  lone (x : Index) {second : UInt8} (hsecond : second = 0xDD ∨ second = 0xFD ∨ second = 0xED)
    (fourth : UInt8) : f .prefixByte = table x.prefixByte second fourth

/-- What a table says of the operations of all pages it says of every instruction, by its bytes. -/
lemma Encoding.eq_table {α : Type} {table : UInt8 → UInt8 → UInt8 → α} {f : Operation → α}
    (htable : Tabulates table f) {code : Nat → UInt8} {i : Instruction} (h : Encoding code i) :
    f i.operation = table (code 0) (code 1) (code 3) := by
  cases h with
  | main hfirst =>
    rw [operation_decodeFrom]
    exact htable.main hfirst _ _
  | bits hfirst =>
    rw [operation_decodeFrom, hfirst]
    exact htable.bits _ _
  | extended hfirst =>
    rw [operation_decodeFrom, hfirst]
    exact htable.extended _ _
  | indexed x hfirst hsecond =>
    rw [operation_decodeFrom, hfirst]
    exact htable.indexed x hsecond _
  | indexedBits x hfirst hsecond =>
    rw [hfirst, hsecond]
    exact htable.indexedBits x _
  | lone x hfirst hsecond =>
    rw [hfirst]
    exact htable.lone x hsecond _

/-! ## Lengths -/

/-- The number of immediate bytes behind an opcode of the main page. -/
def mainImmediateSize (op : UInt8) : Nat :=
  match op with
  | 0x01 | 0x11 | 0x21 | 0x31 | 0x22 | 0x2A | 0x32 | 0x3A => 2
  | 0xC2 | 0xCA | 0xD2 | 0xDA | 0xE2 | 0xEA | 0xF2 | 0xFA | 0xC3 => 2
  | 0xC4 | 0xCC | 0xD4 | 0xDC | 0xE4 | 0xEC | 0xF4 | 0xFC | 0xCD => 2
  | 0x06 | 0x0E | 0x16 | 0x1E | 0x26 | 0x2E | 0x36 | 0x3E => 1
  | 0xC6 | 0xCE | 0xD6 | 0xDE | 0xE6 | 0xEE | 0xF6 | 0xFE => 1
  | 0x10 | 0x18 | 0x20 | 0x28 | 0x30 | 0x38 | 0xD3 | 0xDB => 1
  | _ => 0

/-- The length of an instruction behind an index prefix, by the byte after it. -/
def indexedLength (op : UInt8) : Nat :=
  if op = 0xDD ∨ op = 0xFD ∨ op = 0xED then 1
  else if op = 0xCB then 4
  else 2 + (usesMemory op).toNat + mainImmediateSize op

/-- The length of an instruction, by its first two bytes. -/
def encodedLength (first second : UInt8) : Nat :=
  match first with
  | 0xCB => 2
  | 0xED => if second &&& 0xC7 = 0x43 then 4 else 2
  | 0xDD | 0xFD => indexedLength second
  | op => 1 + mainImmediateSize op

set_option maxRecDepth 4000 in
/-- An index register in the place of HL changes the size of no immediate value. -/
lemma immediateSize_mainOperation_index (x : Index) (op : UInt8) :
    (mainOperation (some x) op).immediateSize = (mainOperation none op).immediateSize := by
  revert op
  refine forall_byte ?_
  cases x <;> decide +kernel

set_option maxRecDepth 4000 in
/-- The immediate values of the main page have the sizes of the table, also behind a prefix. -/
lemma immediateSize_mainOperation (x : Option Index) (op : UInt8) (h : isPrefix op = false) :
    (mainOperation x op).immediateSize = mainImmediateSize op := by
  have hplain : ∀ op, isPrefix op = false →
      (mainOperation none op).immediateSize = mainImmediateSize op :=
    forall_byte (by decide +kernel)
  cases x with
  | none => exact hplain op h
  | some x => rw [immediateSize_mainOperation_index, hplain op h]

set_option maxRecDepth 4000 in
/-- On the extended page, only the copies of a pair to and from an address have an immediate
value, and none works on indexed memory. -/
lemma immediateSize_extendedOperation (op : UInt8) :
    (extendedOperation op).immediateSize = (if op &&& 0xC7 = 0x43 then 2 else 0) ∧
      (extendedOperation op).isIndexed = false := by
  revert op
  exact forall_byte (by decide +kernel)

lemma immediateSize_bitsOperation (o : Operand) (copy : Option ByteRegister) (op : UInt8) :
    (bitsOperation o copy op).immediateSize = 0 := by
  simp only [bitsOperation]
  split <;> rfl

/-- An operand that is selected without an index register is not indexed memory. -/
lemma isIndexed_operandOfCode (code : Fin 8) : (operandOfCode none code).isIndexed = false := by
  revert code
  decide

/-- The length of a decoded instruction, by its page and its operation. -/
lemma length_decodeFrom (page : Page) (code : Nat → UInt8) (start : Nat) :
    (decodeFrom page code start).length =
      page.prefixLength + 1 + (page.operation (code start)).isIndexed.toNat +
        (page.operation (code start)).immediateSize := by
  rw [Instruction.length, Instruction.isIndexed, page_decodeFrom, operation_decodeFrom]

/-- The length of an instruction without a prefix is that of the table. -/
lemma encodedLength_of_main {first : UInt8} (h : isPrefix first = false) (second : UInt8) :
    encodedLength first second = 1 + mainImmediateSize first :=
  match_of_main _ _ _ _ _ _ h

/-- The length of an instruction is that of the table. -/
lemma Encoding.length_eq {code : Nat → UInt8} {i : Instruction} (h : Encoding code i) :
    i.length = encodedLength (code 0) (code 1) := by
  have hindex : ∀ (x : Index) op, encodedLength x.prefixByte op = indexedLength op := by
    intro x op
    cases x <;> rfl
  cases h with
  | main hfirst =>
    rw [length_decodeFrom, encodedLength_of_main hfirst]
    show 0 + 1 + (mainOperation none _).isIndexed.toNat + (mainOperation none _).immediateSize = _
    rw [isIndexed_mainOperation_none, immediateSize_mainOperation none _ hfirst]
    simp
  | bits hfirst =>
    rw [length_decodeFrom, hfirst]
    show 1 + 1 + (bitsOperation _ _ _).isIndexed.toNat + (bitsOperation _ _ _).immediateSize = 2
    rw [isIndexed_bitsOperation, immediateSize_bitsOperation, isIndexed_operandOfCode]
    rfl
  | extended hfirst =>
    rw [length_decodeFrom, hfirst]
    show 1 + 1 + (extendedOperation _).isIndexed.toNat + (extendedOperation _).immediateSize =
      if _ then 4 else 2
    obtain ⟨hsize, hindexed⟩ := immediateSize_extendedOperation (code 1)
    rw [hsize, hindexed]
    split <;> rfl
  | indexed x hfirst hsecond =>
    rw [length_decodeFrom, hfirst, hindex]
    show 1 + 1 + (mainOperation _ _).isIndexed.toNat + (mainOperation _ _).immediateSize = _
    rw [isIndexed_mainOperation, immediateSize_mainOperation _ _ hsecond, indexedLength]
    rw [← Bool.not_eq_true, isPrefix_iff] at hsecond
    rw [if_neg (by tauto), if_neg (by tauto)]
  | indexedBits x hfirst hsecond =>
    rw [hfirst, hsecond, hindex]
    show 2 + 1 + (bitsOperation _ _ _).isIndexed.toNat + (bitsOperation _ _ _).immediateSize = 4
    rw [isIndexed_bitsOperation, immediateSize_bitsOperation]
    rfl
  | lone x hfirst hsecond =>
    rw [hfirst, hindex, indexedLength, if_pos hsecond]
    rfl

/-! ## Fetches -/

/-- The number of opcode fetches of an instruction, by its first two bytes.  The displacement and the
opcode behind two prefixes are not fetched as opcodes. -/
def encodedFetches (first second : UInt8) : Nat :=
  match first with
  | 0xCB | 0xED => 2
  | 0xDD | 0xFD => if second = 0xDD ∨ second = 0xFD ∨ second = 0xED then 1 else 2
  | _ => 1

lemma encodedFetches_of_main {first : UInt8} (h : isPrefix first = false) (second : UInt8) :
    encodedFetches first second = 1 :=
  match_of_main _ _ _ _ _ _ h

/-- The fetches of an instruction are those of the table. -/
lemma Encoding.fetches_eq {code : Nat → UInt8} {i : Instruction} (h : Encoding code i) :
    i.page.fetches = encodedFetches (code 0) (code 1) := by
  have hindex : ∀ (x : Index) second, encodedFetches x.prefixByte second =
      if second = 0xDD ∨ second = 0xFD ∨ second = 0xED then 1 else 2 := by
    intro x second
    cases x <;> rfl
  cases h with
  | main hfirst =>
    rw [page_decodeFrom, encodedFetches_of_main hfirst]
    rfl
  | bits hfirst =>
    rw [page_decodeFrom, hfirst]
    rfl
  | extended hfirst =>
    rw [page_decodeFrom, hfirst]
    rfl
  | indexed x hfirst hsecond =>
    rw [← Bool.not_eq_true, isPrefix_iff] at hsecond
    rw [page_decodeFrom, hfirst, hindex, if_neg (by tauto)]
    rfl
  | indexedBits x hfirst hsecond =>
    rw [hfirst, hindex, hsecond]
    rfl
  | lone x hfirst hsecond =>
    rw [hfirst, hindex, if_pos hsecond]
    rfl

/-! ## Immediate values and displacements -/

/-- The distance from the first byte of an instruction to what follows its opcode, if its opcode
comes right after one prefix at most. -/
def operandStart (first : UInt8) : Nat :=
  if isPrefix first = true then 2 else 1

/-- An instruction that does not work on indexed memory has its immediate value right behind the
opcode. -/
lemma Encoding.immediate_eq {code : Nat → UInt8} {i : Instruction} (hi : Encoding code i)
    (h : i.isIndexed = false) :
    i.immediate = immediateValue code (operandStart (code 0)) i.operation.immediateSize := by
  have hindex : ∀ x : Index, isPrefix x.prefixByte = true := by
    intro x
    cases x <;> rfl
  cases hi with
  | main hfirst =>
    rw [operandStart, if_neg (by simp [hfirst])]
    exact (encoded_decodeFrom .main code).immediate h
  | bits hfirst =>
    rw [hfirst]
    exact (encoded_decodeFrom .bits code).immediate h
  | extended hfirst =>
    rw [hfirst]
    exact (encoded_decodeFrom .extended code).immediate h
  | indexed x hfirst hsecond =>
    rw [hfirst, operandStart, if_pos (hindex x)]
    exact (encoded_decodeFrom (.indexed x) code).immediate h
  | indexedBits x hfirst hsecond =>
    rw [Instruction.isIndexed, Instruction.operation] at h
    exact absurd (h.symm.trans (isIndexed_bitsOperation (.atIndex x) _ _)) Bool.false_ne_true
  | lone x hfirst hsecond => rfl

/-- An instruction that works on indexed memory has its displacement behind its first two bytes. -/
lemma Encoding.displacement_eq {code : Nat → UInt8} {i : Instruction} (hi : Encoding code i)
    (h : i.isIndexed = true) : i.displacement = (code (operandStart (code 0))).toInt8 := by
  have hindex : ∀ x : Index, operandStart x.prefixByte = 2 := by
    intro x
    cases x <;> rfl
  cases hi with
  | main hfirst =>
    rw [operandStart, if_neg (by simp [hfirst])]
    exact (encoded_decodeFrom .main code).displacement h
  | bits hfirst =>
    rw [hfirst]
    exact (encoded_decodeFrom .bits code).displacement h
  | extended hfirst =>
    rw [hfirst]
    exact (encoded_decodeFrom .extended code).displacement h
  | indexed x hfirst hsecond =>
    rw [hfirst, hindex]
    exact (encoded_decodeFrom (.indexed x) code).displacement h
  | indexedBits x hfirst hsecond =>
    rw [hfirst, hindex]
  | lone x hfirst hsecond => cases h

/-! ## Holding interrupts off -/

/-- The first two bytes of an instruction tell whether it holds interrupts off, and how. -/
lemma Encoding.holdsOff_iff {code : Nat → UInt8} {i : Instruction} (h : Encoding code i) :
    (i.operation = .enableInterrupts ↔ IsEnable (code 0) (code 1)) ∧
      (i.operation = .prefixByte ↔ IsLonePrefix (code 0) (code 1)) := by
  have hindex : ∀ (x : Index) (second : UInt8), (IsEnable x.prefixByte second ↔ second = 0xFB) ∧
      (IsLonePrefix x.prefixByte second ↔ second = 0xDD ∨ second = 0xFD ∨ second = 0xED) := by
    intro x second
    cases x <;> simp [IsEnable, IsLonePrefix, Index.prefixByte]
  cases h with
  | main hfirst =>
    obtain ⟨henable, hlone⟩ := holdsOff_mainOperation none (code 0)
    rw [operation_decodeFrom]
    rw [← Bool.not_eq_true, isPrefix_iff] at hfirst
    simp only [Page.operation, henable, hlone, IsEnable, IsLonePrefix]
    tauto
  | bits hfirst =>
    obtain ⟨henable, hlone⟩ := Operation.ne_of_holdsOff
      (holdsOff_bitsOperation (operandOfCode none (opcodeZ (code 1))) none (code 1))
    rw [operation_decodeFrom]
    simp [Page.operation, henable, hlone, IsEnable, IsLonePrefix, hfirst]
  | extended hfirst =>
    obtain ⟨henable, hlone⟩ := Operation.ne_of_holdsOff (holdsOff_extendedOperation (code 1))
    rw [operation_decodeFrom]
    simp [Page.operation, henable, hlone, IsEnable, IsLonePrefix, hfirst]
  | indexed x hfirst hsecond =>
    obtain ⟨henable, hlone⟩ := holdsOff_mainOperation (some x) (code 1)
    rw [operation_decodeFrom, hfirst, (hindex x _).1, (hindex x _).2]
    rw [← Bool.not_eq_true, isPrefix_iff] at hsecond
    simp only [Page.operation, henable, hlone]
    tauto
  | indexedBits x hfirst hsecond =>
    obtain ⟨henable, hlone⟩ := Operation.ne_of_holdsOff (holdsOff_bitsOperation (.atIndex x)
      (registerOfCode? none (opcodeZ (code 3))) (code 3))
    rw [hfirst, (hindex x _).1, (hindex x _).2, hsecond]
    simp [Instruction.operation, Page.operation, henable, hlone]
  | lone x hfirst hsecond =>
    rw [hfirst, (hindex x _).1, (hindex x _).2]
    refine ⟨iff_of_false (fun henable => ?_) fun henable => ?_, iff_of_true rfl hsecond⟩
    · cases henable
    · rw [henable] at hsecond
      revert hsecond
      decide

end Z80

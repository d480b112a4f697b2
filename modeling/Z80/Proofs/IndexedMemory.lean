import Z80.Proofs.Activity
import Z80.Proofs.ByteArithmetic
import Z80.Proofs.ByteOperation

/-!
# Indexed memory in the place of HL

An opcode of the main page that uses the memory at HL uses, behind an index prefix, the memory at a
signed distance from the index register.  There are six such uses (`MemoryUse`): the byte is copied to a
register, written from a register or from the byte after the displacement, counted up or down, or
combined with the accumulator.  `step_indexedMemory` tells the whole step of each, on any bus, and what it
has in common with the opcode that has a register in the place of memory.

The registers that such an opcode names are the real ones: beside a displacement, H and L are not the
halves of the index register.
-/

namespace Z80

/-! ## The uses of memory -/

/-- What an opcode can do with a byte of memory. -/
inductive MemoryUse
  /-- Copies it to a register. -/
  | load (r : ByteRegister)
  /-- Writes a register to it. -/
  | store (r : ByteRegister)
  /-- Writes an immediate byte to it. -/
  | storeImmediate
  /-- Counts it up. -/
  | increment
  /-- Counts it down. -/
  | decrement
  /-- Combines it with the accumulator. -/
  | combine (operator : Combination)
  deriving DecidableEq

/-- What an opcode of the main page does with the memory that it names, if it names any. -/
def memoryUse? (op : UInt8) : Option MemoryUse :=
  match op with
  | 0x34 => some .increment
  | 0x35 => some .decrement
  | 0x36 => some .storeImmediate
  | 0x46 => some (.load .b)
  | 0x4E => some (.load .c)
  | 0x56 => some (.load .d)
  | 0x5E => some (.load .e)
  | 0x66 => some (.load .h)
  | 0x6E => some (.load .l)
  | 0x7E => some (.load .a)
  | 0x70 => some (.store .b)
  | 0x71 => some (.store .c)
  | 0x72 => some (.store .d)
  | 0x73 => some (.store .e)
  | 0x74 => some (.store .h)
  | 0x75 => some (.store .l)
  | 0x77 => some (.store .a)
  | 0x86 => some (.combine .add)
  | 0x8E => some (.combine .addCarry)
  | 0x96 => some (.combine .sub)
  | 0x9E => some (.combine .subCarry)
  | 0xA6 => some (.combine .and)
  | 0xAE => some (.combine .xor)
  | 0xB6 => some (.combine .or)
  | 0xBE => some (.combine .compare)
  | _ => none

/-- The opcode that does with the register of the given code what `op` does with memory. -/
def registerForm (op code : UInt8) : UInt8 :=
  if op < 0x40 then 8 * code + op % 8 else op / 8 * 8 + code

namespace MemoryUse

/-- The registers after the use of a byte `m`. -/
def registers (use : MemoryUse) (k : Registers) (m : UInt8) : Registers :=
  match use with
  | .load r => k.setByte r m
  | .store _ | .storeImmediate => k
  | .increment => { k with f := (Arithmetic.increment m k.f.c).flags }
  | .decrement => { k with f := (Arithmetic.decrement m k.f.c).flags }
  | .combine operator => k.setResult (operator.apply k.a m k.f.c)

/-- Whether the byte is read. -/
def reads : MemoryUse → Bool
  | .load _ | .increment | .decrement | .combine _ => true
  | .store _ | .storeImmediate => false

/-- What is written in the place of a byte `m`, where `immediate` is the byte after the displacement. -/
def stored? (use : MemoryUse) (k : Registers) (m immediate : UInt8) : Option UInt8 :=
  match use with
  | .store r => some (k.byte r)
  | .storeImmediate => some immediate
  | .increment => some (m + 1)
  | .decrement => some (m - 1)
  | .load _ | .combine _ => none

/-- The length of the instruction, with prefix, displacement and immediate byte. -/
def length (use : MemoryUse) : UInt16 :=
  if use = .storeImmediate then 4 else 3

/-- The T-states of the instruction. -/
def duration (use : MemoryUse) : Nat :=
  if use = .increment ∨ use = .decrement then 23 else 19

/-- The operation on an operand in the place of memory. -/
def operation (use : MemoryUse) (o : Operand) : Operation :=
  match use with
  | .load r => .load (.register r) o
  | .store r => .load o (.register r)
  | .storeImmediate => .loadImmediate o
  | .increment => .increment o
  | .decrement => .decrement o
  | .combine operator => .combine operator o

/-- Whether the flags describe the result. -/
def setsFlags : MemoryUse → Bool
  | .increment | .decrement | .combine _ => true
  | .load _ | .store _ | .storeImmediate => false

section Bus

variable {β : Type} [Bus β]

/-- The bus after the use of the byte at `a`, which is read if the use needs it, and written with what is
given. -/
def access (use : MemoryUse) (bus : β) (a : UInt16) (stored? : Option UInt8) : β :=
  let rest := if use.reads = true then (MemoryBus.read bus a).2 else bus
  match stored? with
  | some v => MemoryBus.write rest a v
  | none => rest

/-- The accesses that the use of a byte `m` at `a` makes. -/
def accesses (use : MemoryUse) (a : UInt16) (m : UInt8) (stored? : Option UInt8) : Array Access :=
  let rest := if use.reads = true then #[.read a m] else #[]
  match stored? with
  | some v => rest.push (.write a v)
  | none => rest

/-- A bus that keeps a record notes just these accesses. -/
lemma accesses_access (use : MemoryUse) (bus : β) (a : UInt16) (stored? : Option UInt8) :
    (use.access (Traced.start bus) a stored?).accesses =
      use.accesses a (MemoryBus.read bus a).1 stored? := by
  cases use <;> cases stored? <;> rfl

/-- The operation on indexed memory does what the use says. -/
lemma run_operation (use : MemoryUse) (x : Index) (d : Int8) (immediate : UInt16) (k : Registers)
    (bus : β) :
    let a := displaced (k.index x) d
    let m := (MemoryBus.read bus a).1
    let result := ((use.operation (.atIndex x)).plan d immediate k).run bus
    result.1.registers = use.registers k m ∧ result.1.address = a ∧
      result.2 = use.access bus a (use.stored? k m (low immediate)) := by
  cases use with
  | load | store | storeImmediate | increment | decrement | combine => exact ⟨rfl, rfl, rfl⟩

end Bus

end MemoryUse

set_option maxRecDepth 4000 in
/-- Behind an index prefix, an opcode that uses memory stands for its use of indexed memory. -/
lemma mainOperation_memoryUse (x : Index) (op : UInt8) (h : usesMemory op = true) :
    ∃ use, memoryUse? op = some use ∧ isPrefix op = false ∧
      mainOperation (some x) op = use.operation (.atIndex x) := by
  have htable : ∀ op, usesMemory op = true → isPrefix op = false ∧
      (memoryUse? op).map (fun use => use.operation (.atIndex x)) = some (mainOperation (some x) op) := by
    refine forall_byte ?_
    cases x <;> decide +kernel
  obtain ⟨hbare, hmap⟩ := htable op h
  obtain ⟨use, huse, hoperation⟩ := Option.map_eq_some_iff.1 hmap
  exact ⟨use, huse, hbare, hoperation.symm⟩

/-! ## The step -/

section Step

variable {β : Type} [Bus β]

/-- What the bytes of an opcode that uses memory stand for behind an index prefix. -/
lemma decodeAt_indexedMemory {bus : β} {pc : UInt16} (x : Index) {op : UInt8}
    (hx : MemoryBus.peek bus pc = x.prefixByte) (hop : MemoryBus.peek bus (pc + 1) = op)
    (hbare : isPrefix op = false) (hmemory : usesMemory op = true) :
    decodeAt bus pc =
      { page := .indexed x
        opcode := op
        displacement := (MemoryBus.peek bus (pc + 2)).toInt8
        immediate :=
          immediateValue (MemoryBus.codeAt bus pc) 3 (mainOperation (some x) op).immediateSize } := by
  have hcode : MemoryBus.codeAt bus pc 0 = x.prefixByte := (MemoryBus.codeAt_first bus pc).trans hx
  have hopcode : MemoryBus.codeAt bus pc 1 = op := hop
  have hindexed : ((Page.indexed x).operation op).isIndexed = true :=
    (isIndexed_mainOperation x op).trans hmemory
  rw [decodeAt, decode_index x hcode, decodeIndexed_main x (hopcode ▸ hbare), decodeFrom, hopcode,
    if_pos hindexed]
  rfl

/-- The step of a use of indexed memory. -/
lemma step_of_memoryUse {p : Processor} (h : p.Ready) (bus : β) (x : Index) {op d : UInt8}
    {use : MemoryUse} (hx : MemoryBus.peek bus p.registers.pc = x.prefixByte)
    (hop : MemoryBus.peek bus (p.registers.pc + 1) = op)
    (hd : MemoryBus.peek bus (p.registers.pc + 2) = d) (hmemory : usesMemory op = true)
    (hbare : isPrefix op = false) (huse : mainOperation (some x) op = use.operation (.atIndex x)) :
    let k := p.registers
    let a := displaced (k.index x) d.toInt8
    let m := (MemoryBus.read bus a).1
    p.step bus = p.stepTo { (use.registers k m).passed 2 use.length with wz := a }
      (use.access bus a (use.stored? k m (MemoryBus.peek bus (k.pc + 3)))) use.duration := by
  intro k a m
  set immediate := immediateValue (MemoryBus.codeAt bus k.pc) 3 (use.operation (.atIndex x)).immediateSize
    with himmediate
  set i : Instruction :=
    { page := .indexed x
      opcode := op
      displacement := d.toInt8
      immediate }
  have hi : decodeAt bus p.registers.pc = i := by
    rw [decodeAt_indexedMemory x hx hop hbare hmemory, huse, hd]
  have hoperation : i.operation = use.operation (.atIndex x) := huse
  have hbytes : i.operation.onBytes = true := by
    rw [hoperation]
    cases use <;> rfl
  have hindexed : i.isIndexed = true := (isIndexed_mainOperation x op).trans hmemory
  set result := ((use.operation (.atIndex x)).plan i.displacement immediate k).run bus
  obtain ⟨hregisters, haddress, hbus⟩ := use.run_operation x i.displacement immediate k bus
  have hlength : UInt16.ofNat i.length = use.length := by
    rw [Instruction.length, hindexed, hoperation]
    cases use <;> rfl
  have hduration : i.duration = use.duration := by
    rw [Instruction.duration, hoperation]
    cases use <;> rfl
  -- Only one use looks at the immediate byte.
  have hstored : use.stored? k m (low immediate) =
      use.stored? k m (MemoryBus.peek bus (k.pc + 3)) := by
    cases use with
    | storeImmediate => exact congrArg some (low_toUInt16 _)
    | _ => rfl
  calc p.step bus
      = p.stepTo { result.1.registers.passed 2 use.length with wz := result.1.address } result.2
          use.duration := by
        rw [Processor.step_of_onBytes h hi hbytes, hoperation, hlength, hduration, hindexed, if_pos rfl]
        rfl
    _ = _ := by rw [hregisters, haddress, hbus, hstored]

/-! ## Registers in the place of memory -/

/-- The code of a register is below 8. -/
lemma exists_code {code : UInt8} {r : ByteRegister} (h : namedRegister code = some r) :
    ∃ n : Fin 8, code = UInt8.ofNat n := by
  have hsmall : ∀ code, namedRegister code ≠ none → code.toNat < 8 :=
    forall_byte (by decide +kernel)
  have hlt : code.toNat < 8 := hsmall code (by rw [h]; exact Option.some_ne_none r)
  exact ⟨⟨code.toNat, hlt⟩, UInt8.ofNat_toNat.symm⟩

set_option maxRecDepth 4000 in
/-- The register form of a use that sets the flags is the same operation on the register. -/
lemma mainOperation_registerForm {op code : UInt8} {use : MemoryUse} {r : ByteRegister}
    (huse : memoryUse? op = some use) (hflags : use.setsFlags = true)
    (hcode : namedRegister code = some r) :
    isPrefix (registerForm op code) = false ∧
      mainOperation none (registerForm op code) = use.operation (.register r) := by
  have htable : ∀ op, ∀ use ∈ memoryUse? op, use.setsFlags = true → ∀ n : Fin 8,
      ∀ r ∈ namedRegister (UInt8.ofNat n), isPrefix (registerForm op (UInt8.ofNat n)) = false ∧
        mainOperation none (registerForm op (UInt8.ofNat n)) = use.operation (.register r) :=
    forall_byte (by decide +kernel)
  obtain ⟨n, rfl⟩ := exists_code hcode
  exact htable op use huse hflags n r hcode

/-- A use of memory that sets the flags makes of a byte `m` there what the opcode with a register in the
place of memory makes of the same byte in that register, from any state with the same carry flag (and the
same accumulator, if that is combined with the byte), on any bus. -/
def MemoryUse.LikeRegister (use : MemoryUse) (op : UInt8) (k : Registers) (m : UInt8) : Prop :=
  ∀ (γ : Type) [Bus γ] (q : Processor) (bus : γ) (code : UInt8) (r : ByteRegister), q.Ready →
    MemoryBus.peek bus q.registers.pc = registerForm op code → namedRegister code = some r →
    q.registers.byte r = m → q.registers.f.c = k.f.c →
    let after := (q.step bus).processor.registers
    match use with
    | .increment | .decrement =>
      (use.registers k m).f = after.f ∧ (use.registers k m).f.c = k.f.c ∧
        ∀ immediate, use.stored? k m immediate = some (after.byte r)
    | .combine _ =>
      q.registers.a = k.a → (use.registers k m).f = after.f ∧ (use.registers k m).a = after.a
    | .load _ | .store _ | .storeImmediate => True

/-- The uses of memory that set the flags set them like the register forms. -/
lemma likeRegister_memoryUse {op : UInt8} {use : MemoryUse} (huse : memoryUse? op = some use)
    (k : Registers) (m : UInt8) : use.LikeRegister op k m := by
  intro γ _ q bus code r hready hop hcode hbyte hcarry after
  have hstep (hflags : use.setsFlags = true) (hbytes : (use.operation (.register r)).onBytes = true) :
      ∃ immediate length, after =
        (((use.operation (.register r)).plan 0 immediate q.registers).run bus).1.registers.passed 1
          length := by
    obtain ⟨hbare, hoperation⟩ := mainOperation_registerForm huse hflags hcode
    exact ⟨_, _, congrArg (fun s => s.processor.registers)
      (Processor.step_of_main hready hop hbare hoperation hbytes)⟩
  -- Counting writes the flags and the register, and both are found afterwards.
  have hcounted {f : Flags} {v : UInt8} {length : UInt16}
      (hafter : after = ({ q.registers with f }.setByte r v).passed 1 length) :
      f = after.f ∧ v = after.byte r := by
    rw [hafter, Registers.byte_passed, Registers.byte_setByte]
    exact ⟨(Registers.f_setByte { q.registers with f } r v).symm, rfl⟩
  cases use with
  | increment =>
    obtain ⟨immediate, length, hafter⟩ := hstep rfl rfl
    have hcount : after = ({ q.registers with
        f := (Arithmetic.increment m k.f.c).flags }.setByte r (m + 1)).passed 1 length := by
      rw [hafter, ← hbyte, ← hcarry]
      rfl
    obtain ⟨hflags, hvalue⟩ := hcounted hcount
    exact ⟨hflags, rfl, fun _ => congrArg some hvalue⟩
  | decrement =>
    obtain ⟨immediate, length, hafter⟩ := hstep rfl rfl
    have hcount : after = ({ q.registers with
        f := (Arithmetic.decrement m k.f.c).flags }.setByte r (m - 1)).passed 1 length := by
      rw [hafter, ← hbyte, ← hcarry]
      rfl
    obtain ⟨hflags, hvalue⟩ := hcounted hcount
    exact ⟨hflags, rfl, fun _ => congrArg some hvalue⟩
  | combine operator =>
    intro ha
    obtain ⟨immediate, length, hafter⟩ := hstep rfl rfl
    have hregisters : after =
        (q.registers.setResult (operator.apply k.a m k.f.c)).passed 1 length := by
      rw [hafter, ← hbyte, ← hcarry, ← ha]
      rfl
    rw [hregisters]
    exact ⟨rfl, rfl⟩
  | load | store | storeImmediate => trivial

/-! ## Indexed memory -/

/-- **Indexed memory.**  Behind an index prefix, an opcode that uses memory uses the byte `m` at the
signed distance `d` from the index register, and that byte only: it copies the byte to the register that
it names, writes that register or the byte after the displacement, counts the byte, or combines it with the
accumulator.  The address is left in the address latch, and nothing else changes but the refresh counter,
the program counter and the time.  Where the flags are set, the result and the flags are those of the
opcode with a register in the place of memory. -/
theorem step_indexedMemory {p : Processor} (h : p.Ready) (bus : β) (x : Index) {op d : UInt8}
    (hx : MemoryBus.peek bus p.registers.pc = x.prefixByte)
    (hop : MemoryBus.peek bus (p.registers.pc + 1) = op)
    (hd : MemoryBus.peek bus (p.registers.pc + 2) = d) (hmemory : usesMemory op = true) :
    let k := p.registers
    let a := displaced (k.index x) d.toInt8
    let m := (MemoryBus.read bus a).1
    (a.toNat : Int) = ((k.index x).toNat + d.toInt8.toInt) % 65536 ∧
    ∃ use, memoryUse? op = some use ∧
      let stored? := use.stored? k m (MemoryBus.peek bus (k.pc + 3))
      p.step bus = p.stepTo { (use.registers k m).passed 2 use.length with wz := a }
        (use.access bus a stored?) use.duration ∧
      p.accesses bus = use.accesses a m stored? ∧
      use.LikeRegister op k m := by
  intro k a m
  obtain ⟨use, huse, hbare, hoperation⟩ := mainOperation_memoryUse x op hmemory
  have hstep := step_of_memoryUse h bus x hx hop hd hmemory hbare hoperation
  have htraced := step_of_memoryUse h (Traced.start bus) x hx hop hd hmemory hbare hoperation
  refine ⟨toNat_displaced _ d, use, huse, hstep, ?_, likeRegister_memoryUse huse k m⟩
  rw [Processor.accesses, htraced]
  exact use.accesses_access bus a _

/-- A byte beyond the end of the address space is one at its beginning: it is counted down, and the carry
flag stays. -/
theorem step_indexedMemory_decrement :
    let registers : Registers := { Registers.powerOn with iy := 0xFFFF, f := Flags.ofByte 0x01 }
    let p : Processor := { registers }
    let bus : Board := { memory := ((Memory.zero.write 0 0xFD).write 1 0x35).write 2 0x08 }
    p.Ready ∧ MemoryBus.peek bus p.registers.pc = Index.iy.prefixByte ∧
      MemoryBus.peek bus (p.registers.pc + 1) = 0x35 ∧
      MemoryBus.peek bus (p.registers.pc + 2) = 0x08 ∧ usesMemory 0x35 = true ∧
      p.accesses bus = #[.read 0x0007 0x00, .write 0x0007 0xFF] ∧
      (p.step bus).processor.registers =
        { registers with f := Flags.ofByte 0xBB, pc := 3, r := 2, wz := 0x0007 } ∧
      (p.step bus).duration = 23 ∧ MemoryUse.decrement.LikeRegister 0x35 registers 0x00 := by
  intro registers p bus
  have h : p.Ready := ⟨rfl, rfl⟩
  have hx : MemoryBus.peek bus p.registers.pc = Index.iy.prefixByte := by decide +kernel
  have hop : MemoryBus.peek bus (p.registers.pc + 1) = 0x35 := by decide +kernel
  have hd : MemoryBus.peek bus (p.registers.pc + 2) = 0x08 := by decide +kernel
  have hread : (MemoryBus.read bus (displaced 0xFFFF (0x08 : UInt8).toInt8)).1 = 0x00 := by
    decide +kernel
  obtain ⟨-, use, huse, hstep, haccesses, hlike⟩ :=
    step_indexedMemory h bus .iy hx hop hd (by decide)
  obtain rfl : MemoryUse.decrement = use := Option.some.inj huse
  refine ⟨h, hx, hop, hd, by decide, haccesses.trans (by decide +kernel), ?_, ?_, hread ▸ hlike⟩
  · rw [hstep]
    decide +kernel
  · rw [hstep]
    rfl

end Step

end Z80

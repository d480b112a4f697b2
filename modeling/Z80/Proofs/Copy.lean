import Z80.Proofs.Repeat
import Z80.Proofs.Transfer

/-!
# What a repeating transfer copies

A repeating transfer copies as many bytes as BC says, one after the other, from the addresses that
start at HL to those that start at DE.  A byte may be copied to a place from which another one is copied
later, so what is copied is said by a recursion on the number of bytes (`Memory.copied`) and not by the
memory at first.  `Machine.transfer_copies` says that a transfer does this and no more, whatever the
ranges have to do with each other, as long as the instruction is still there before each byte.
-/

namespace Z80

/-- The memory after `n` bytes have been copied, one after the other, from `source` on to `target` on.
A byte that has been copied may be copied once more. -/
def Memory.copied (memory : Memory) (d : Direction) (source target : UInt16) : Nat → Memory
  | 0 => memory
  | n + 1 =>
    let before := memory.copied d source target n
    before.write (d.advance target n) (before.read (d.advance source n))

/-- Copying stores the bytes that are found at their places when their turn comes. -/
lemma Memory.copied_eq_filled (memory : Memory) (d : Direction) (source target : UInt16) (n : Nat) :
    memory.copied d source target n = memory.filled d target
      (fun i => (memory.copied d source target i).read (d.advance source i)) n := by
  induction n with
  | zero => rfl
  | succ n ih => rw [filled, ← ih, copied]

namespace Machine

variable {m : Machine} {d : Direction}

/-- The memory after `n` bytes have been copied from HL on to DE on. -/
def copied (m : Machine) (d : Direction) (n : Nat) : Memory :=
  m.board.memory.copied d m.processor.registers.hl m.processor.registers.de n

/-- The machine `m'` is what a transfer makes of `m` by copying `n` bytes. -/
structure Copying (m : Machine) (d : Direction) (n : Nat) (m' : Machine) : Prop where
  /-- The bytes have been copied, and nothing else happened to the board. -/
  board : m'.board = { m.board with memory := m.copied d n }
  /-- The next byte is read from there. -/
  hl : m'.processor.registers.hl = d.advance m.processor.registers.hl n
  /-- The next byte is written there. -/
  de : m'.processor.registers.de = d.advance m.processor.registers.de n
  /-- What is left is counted. -/
  bc : m'.processor.registers.bc = m.processor.registers.bc - UInt16.ofNat n
  /-- The accumulator is kept. -/
  a : m'.processor.registers.a = m.processor.registers.a
  /-- The flags that a transfer does not touch are kept. -/
  flags : m'.processor.registers.f.s = m.processor.registers.f.s ∧
    m'.processor.registers.f.z = m.processor.registers.f.z ∧
    m'.processor.registers.f.c = m.processor.registers.f.c

/-- Copying one byte more. -/
lemma Copying.next {n : Nat} {m' : Machine} (h : m.Copying d n m')
    (hm' : m'.AtExtended (.blockTransfer d true)) : m.Copying d (n + 1) m'.next := by
  rw [hm'.next_of_transfer.1]
  have hsource : m'.source = (m.copied d n).read (d.advance m.processor.registers.hl n) := by
    rw [source, read, h.hl, h.board]
  have hmemory : m'.board.memory.write m'.processor.registers.de m'.source = m.copied d (n + 1) := by
    rw [hsource, h.de, h.board]
    rfl
  constructor
  case board =>
    show { m'.board with memory := m'.board.memory.write m'.processor.registers.de m'.source } = _
    rw [hmemory, h.board]
  case hl =>
    rw [← d.step_advance, ← h.hl]
    exact Registers.hl_transferred _ d _
  case de =>
    rw [← d.step_advance, ← h.de]
    exact Registers.de_transferred _ d _
  case bc =>
    refine (Registers.bc_transferred _ d _).trans ?_
    rw [h.bc, UInt16.ofNat_add]
    grind
  case a => exact h.a
  case flags => exact h.flags

/-- The flags tell of the byte that is copied last, and the address latch is kept there. -/
lemma Copying.last_next {n : Nat} {m' : Machine} (h : m.Copying d n m')
    (hm' : m'.AtExtended (.blockTransfer d true))
    (hover : m'.goesBack (.blockTransfer d true) = false) :
    let k := m.processor.registers
    let last := (m.copied d n).read (d.advance k.hl n) + k.a
    m'.next.processor.registers.f =
        { k.f with y := bit last 1, h := false, x := bit last 3, p := false, n := false } ∧
      m'.next.processor.registers.wz = m'.processor.registers.wz := by
  intro k last
  set k' := m'.processor.registers
  have hagain : (k'.bc != 1) = false := hover
  have hlast : m'.source + k'.a = last := by rw [source, read, h.hl, h.board, h.a]
  obtain ⟨hs, hz, hc⟩ : k'.f.s = k.f.s ∧ k'.f.z = k.f.z ∧ k'.f.c = k.f.c := h.flags
  rw [hm'.next_of_transfer.1]
  constructor
  · show { k'.f with
      y := bit (m'.source + k'.a) 1
      h := false
      x := bit (m'.source + k'.a) 3
      p := k'.bc != 1
      n := false } = _
    simp only [hs, hz, hc, hlast, hagain]
  · show (if (k'.bc != 1) = true then k'.pc + 1 else k'.wz) = k'.wz
    rw [hagain]
    rfl

/-- The loop of a repeating transfer. -/
lemma loop_copying
    (hcode : ∀ i < wordCount m.processor.registers.bc,
      (m.copied d i).HoldsExtended m.processor.registers.pc d.transferOpcode) :
    m.Loop (.blockTransfer d true) (wordCount m.processor.registers.bc) (m.Copying d) where
  repeats := rfl
  start := by
    constructor
    case board => rfl
    case hl => exact (d.advance_zero _).symm
    case de => exact (d.advance_zero _).symm
    case bc => exact (UInt16.sub_zero _).symm
    case a => rfl
    case flags => exact ⟨rfl, rfl, rfl⟩
  code := by
    intro j hj m' hstate
    refine ⟨d.transferOpcode, d.extendedOperation_transferOpcode, ?_⟩
    rw [hstate.board]
    exact hcode j hj
  again := by
    intro j hj m' hstate
    show (m'.processor.registers.bc != 1) = _
    rw [hstate.bc, word_sub_ofNat_ne_one hj]
  next := fun j hj m' hexecutes hstate => hstate.next hexecutes

/-- **Repeating transfers copy.**  A repeating transfer that no interrupt disturbs takes as many steps as
BC says, 65536 for zero, if the instruction is still there before each of them.  Step by step it copies
one byte after the other, so that bytes that have been copied before are copied once more where the
ranges overlap, and changes neither the accumulator nor S, Z and C.  In the end BC is zero, the flags
tell of the last byte, and the address latch of the instruction if it has been repeated. -/
theorem transfer_copies (hm : m.Undisturbed (wordCount m.processor.registers.bc))
    (hcode : ∀ i < wordCount m.processor.registers.bc,
      (m.copied d i).HoldsExtended m.processor.registers.pc d.transferOpcode) :
    let k := m.processor.registers
    let n := wordCount k.bc
    let final := (m.steps n).machine.processor.registers
    let last := (m.copied d (n - 1)).read (d.advance k.hl (n - 1)) + k.a
    m.Finishes n ∧ (∀ j ≤ n, m.Copying d j (m.steps j).machine) ∧ final.bc = 0 ∧
      final.wz = (if 1 < n then k.pc + 1 else k.wz) ∧
      final.f = { k.f with y := bit last 1, h := false, x := bit last 3, p := false, n := false } := by
  intro k n final last
  have hloop := loop_copying hcode
  obtain ⟨hpos, -, hcount⟩ := wordCount_spec k.bc
  have hlast : n - 1 < n := Nat.sub_one_lt_of_lt hpos
  have hzero : final.bc = 0 := by
    rw [(hloop.state hm (Nat.le_refl n)).bc, hcount]
    exact UInt16.sub_self k.bc
  obtain ⟨hstate, hexecutes, hover, hnext⟩ := hloop.last hm hpos
  have hfinal : final = (m.steps (n - 1)).machine.next.processor.registers :=
    congrArg (fun m => m.processor.registers) hnext
  obtain ⟨hflags, hwz⟩ := hstate.last_next hexecutes hover
  rw [← hfinal] at hflags hwz
  refine ⟨hloop.finishes hm hpos, fun j hj => hloop.state hm hj, hzero, ?_, hflags⟩
  have hone : n - 1 = 0 ↔ ¬ 1 < n := by omega
  rw [hwz, hloop.wz_steps hm (.inl rfl) hlast, if_congr hone rfl rfl, ite_not]

/-- Where the two ranges overlap by one byte, that byte is copied twice. -/
theorem transfer_copies_overlapping :
    let registers : Registers :=
      { Registers.powerOn with b := 0, c := 2, d := 0, e := 0x11, h := 0, l := 0x10 }
    let code : Memory := (Memory.zero.write 0x00 0xED).write 0x01 0xB0
    let memory : Memory := (code.write 0x10 0xAA).write 0x11 0xBB
    let m : Machine := { processor := { registers }, board := { memory } }
    let final := (m.steps 2).machine
    m.Undisturbed 2 ∧
      (∀ i < 2, (m.copied .up i).HoldsExtended 0 Direction.up.transferOpcode) ∧
      final.read 0x12 = 0xAA ∧ final.processor.registers.pc = 2 ∧
      final.processor.registers.bc = 0 ∧ final.processor.registers.wz = 1 ∧
      (m.steps 2).duration = 37 := by
  intro registers code memory m final
  have hcount : wordCount m.processor.registers.bc = 2 := by decide
  have hfirst : memory.read 0x00 = 0xED := by simp [memory, code, Memory.read_write]
  have hsecond : memory.read 0x01 = 0xB0 := by simp [memory, code, Memory.read_write]
  have hapart : ∀ i < 2, (0 : UInt16) ≠ Direction.up.advance m.processor.registers.de i ∧
      (0 : UInt16) + 1 ≠ Direction.up.advance m.processor.registers.de i := by decide
  have hm : m.Undisturbed 2 := undisturbed_of_idle rfl ⟨rfl, rfl⟩ 2
  have hcode : ∀ i < 2, (m.copied .up i).HoldsExtended 0 Direction.up.transferOpcode := by
    intro i hi
    have hheld : memory.HoldsExtended 0 Direction.up.transferOpcode := ⟨hfirst, hsecond⟩
    rw [copied, Memory.copied_eq_filled]
    exact hheld.filled _ fun j hj => hapart j (Nat.lt_trans hj hi)
  obtain ⟨hfinishes, hcopying, hbc, hwz, -⟩ :=
    transfer_copies (m := m) (d := .up) (hcount ▸ hm) (hcount ▸ hcode)
  rw [hcount] at hfinishes hcopying hbc hwz
  refine ⟨hm, hcode, ?_, hfinishes.goesOn, hbc, hwz, hfinishes.duration⟩
  have hboard := (hcopying 2 (Nat.le_refl 2)).board
  rw [read, hboard]
  have hhl : m.processor.registers.hl = 0x10 := by decide
  have hde : m.processor.registers.de = 0x11 := by decide
  simp [copied, Memory.copied, hhl, hde, Direction.advance, Memory.read_write, m, memory]

end Machine

end Z80

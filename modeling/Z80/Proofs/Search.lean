import Z80.Proofs.Repeat
import Z80.Proofs.Word

/-!
# What a repeating search finds

A repeating search compares the accumulator with one byte after the other, from HL on, until it meets
an equal one or has met as many as BC says.  Where it ends is said without the processor: at the first
place that holds the byte, or at the last place if none does (`Machine.searchEnd`).
`Machine.search_finds` says that the search ends just there and how the flags, the counter and the
address latch tell what was found.
-/

namespace Z80

/-- The opcode of the repeating search in a direction. -/
def Direction.searchOpcode : Direction → UInt8
  | .up => 0xB1
  | .down => 0xB9

/-- The opcode stands for the repeating search. -/
lemma Direction.extendedOperation_searchOpcode (d : Direction) :
    extendedOperation d.searchOpcode = .blockSearch d true := by
  cases d <;> rfl

namespace Machine

variable {m : Machine} {d : Direction}

/-! ## Where a search ends -/

/-- Whether the byte `j` places from HL is the one in the accumulator. -/
def matchesAt (m : Machine) (d : Direction) (j : Nat) : Bool :=
  m.read (d.advance m.processor.registers.hl j) == m.processor.registers.a

/-- The first of the places that BC counts from HL on where the byte in the accumulator is, or the last
place if it is nowhere. -/
def searchEnd (m : Machine) (d : Direction) : Nat :=
  let n := wordCount m.processor.registers.bc
  ((List.range n).find? (m.matchesAt d)).getD (n - 1)

/-- There is no match before the end of a search, and there is one at the end unless all places have
been passed. -/
lemma searchEnd_spec (m : Machine) (d : Direction) :
    m.searchEnd d < wordCount m.processor.registers.bc ∧
      (∀ j < m.searchEnd d, m.matchesAt d j = false) ∧
      (m.matchesAt d (m.searchEnd d) = true ∨
        m.searchEnd d + 1 = wordCount m.processor.registers.bc) := by
  have hpos := (wordCount_spec m.processor.registers.bc).1
  set n := wordCount m.processor.registers.bc
  cases hfind : (List.range n).find? (m.matchesAt d) with
  | none =>
    have hend : m.searchEnd d = n - 1 := by rw [searchEnd, hfind, Option.getD_none]
    have hnowhere : ∀ j < n, m.matchesAt d j = false := by
      simpa only [Bool.not_eq_true'] using List.find?_range_eq_none.1 hfind
    rw [hend]
    exact ⟨Nat.sub_one_lt_of_lt hpos, fun j hj => hnowhere j (by omega),
      .inr (Nat.sub_add_cancel hpos)⟩
  | some i =>
    have hend : m.searchEnd d = i := by rw [searchEnd, hfind, Option.getD_some]
    obtain ⟨hmatch, hmem, hbefore⟩ := List.find?_range_eq_some.1 hfind
    simp only [Bool.not_eq_true'] at hbefore
    rw [hend]
    exact ⟨List.mem_range.1 hmem, hbefore, .inl hmatch⟩

/-! ## One byte -/

/-- The flags after the search has compared the accumulator with a byte, if `left` more may follow. -/
def searchFlags (k : Registers) (v : UInt8) : Flags :=
  let difference := Arithmetic.sub k.a v false
  let n := difference.value - difference.flags.h.toUInt8
  { difference.flags with
    y := bit n 1
    x := bit n 3
    p := k.bc - 1 != 0
    c := k.f.c }

/-- An iteration of a search moves HL on, counts BC down and sets the flags. -/
lemma AtExtended.next_of_search (h : m.AtExtended (.blockSearch d true)) :
    let k := m.processor.registers
    m.next.processor.registers.toBank =
        { k.toBank with
          b := high (k.bc - 1)
          c := low (k.bc - 1)
          h := high (d.step k.hl)
          l := low (d.step k.hl)
          f := searchFlags k (m.read k.hl) } ∧
      m.next.board = m.board := by
  obtain ⟨hbank, hboard⟩ := h.bank_next
  exact ⟨hbank.trans (Registers.toBank_rewindIf _ _), hboard⟩

/-- An iteration that does not go back moves the address latch on. -/
lemma AtExtended.wz_next_of_search (h : m.AtExtended (.blockSearch d true))
    (hover : m.goesBack (.blockSearch d true) = false) :
    m.next.processor.registers.wz = d.step m.processor.registers.wz := by
  have hgone : ¬ (m.processor.registers.bc ≠ 1 ∧
      m.processor.registers.a ≠ m.read m.processor.registers.hl) := by
    rintro ⟨hleft, hdiffers⟩
    rw [← Bool.not_eq_true] at hover
    exact hover (Bool.and_eq_true_iff.2 ⟨bne_iff_ne.2 hleft, bne_iff_ne.2 hdiffers⟩)
  rw [h.wz_next_of_repeats rfl]
  exact if_neg hgone

/-! ## All bytes -/

/-- The machine `m'` is what a search makes of `m` by passing `n` bytes. -/
structure Searching (m : Machine) (d : Direction) (n : Nat) (m' : Machine) : Prop where
  /-- Nothing happens to the board. -/
  board : m'.board = m.board
  /-- The next byte is read from there. -/
  hl : m'.processor.registers.hl = d.advance m.processor.registers.hl n
  /-- What is left is counted. -/
  bc : m'.processor.registers.bc = m.processor.registers.bc - UInt16.ofNat n
  /-- The accumulator is kept. -/
  a : m'.processor.registers.a = m.processor.registers.a
  /-- DE is kept. -/
  de : m'.processor.registers.de = m.processor.registers.de
  /-- The carry is kept. -/
  carry : m'.processor.registers.f.c = m.processor.registers.f.c

/-- Passing one byte more. -/
lemma Searching.next {n : Nat} {m' : Machine} (h : m.Searching d n m')
    (hm' : m'.AtExtended (.blockSearch d true)) : m.Searching d (n + 1) m'.next := by
  obtain ⟨hbank, hboard⟩ := hm'.next_of_search
  constructor
  case board => rw [hboard, h.board]
  case hl =>
    rw [← d.step_advance, ← h.hl]
    exact (congrArg Bank.hl hbank).trans (word_high_low _)
  case bc =>
    refine (congrArg Bank.bc hbank).trans ((word_high_low _).trans ?_)
    rw [h.bc, UInt16.ofNat_add]
    grind
  case a => exact (congrArg Bank.a hbank).trans h.a
  case de => exact (congrArg Bank.de hbank).trans h.de
  case carry => exact (congrArg (fun k : Bank => k.f.c) hbank).trans h.carry

/-- After an iteration N is set, Z tells whether the byte was found and P/V whether others are left. -/
lemma Searching.flags_next {n : Nat} {m' : Machine} (h : m.Searching d n m')
    (hm' : m'.AtExtended (.blockSearch d true)) :
    let final := m'.next.processor.registers
    final.f.n = true ∧ final.f.z = m.matchesAt d n ∧ final.f.p = (final.bc != 0) := by
  intro final
  set k := m'.processor.registers
  obtain ⟨hbank, -⟩ := hm'.next_of_search
  have hflags : final.f = searchFlags k (m'.read k.hl) := congrArg Bank.f hbank
  have hbc : final.bc = k.bc - 1 := (congrArg Bank.bc hbank).trans (word_high_low _)
  have hmatch : m.matchesAt d n = (k.a == m'.read k.hl) := by
    rw [read, h.a, h.hl, h.board, Bool.beq_comm]
    rfl
  rw [hflags, hbc, hmatch]
  exact ⟨rfl, Bool.not_inj (Arithmetic.value_sub_ne_zero k.a (m'.read k.hl)), rfl⟩

/-- A search goes back unless the byte matches or is the last one. -/
lemma Searching.goesBack {n : Nat} {m' : Machine} (h : m.Searching d n m')
    (hn : n < wordCount m.processor.registers.bc) : m'.goesBack (.blockSearch d true) =
      (decide (n + 1 < wordCount m.processor.registers.bc) && !m.matchesAt d n) := by
  have hmatch : (m'.processor.registers.a != m'.read m'.processor.registers.hl) =
      !m.matchesAt d n := by
    rw [read, h.a, h.hl, h.board, bne, Bool.beq_comm]
    rfl
  show (m'.processor.registers.bc != 1 && _) = _
  rw [← hmatch, h.bc, word_sub_ofNat_ne_one hn]
  rfl

/-- The loop of a repeating search. -/
lemma loop_searching
    (hcode : m.board.memory.HoldsExtended m.processor.registers.pc d.searchOpcode) :
    m.Loop (.blockSearch d true) (m.searchEnd d + 1) (m.Searching d) where
  repeats := rfl
  start := by
    constructor
    case board => rfl
    case hl => exact (d.advance_zero _).symm
    case bc => exact (UInt16.sub_zero _).symm
    case a => rfl
    case de => rfl
    case carry => rfl
  code := by
    intro j hj m' hstate
    refine ⟨d.searchOpcode, d.extendedOperation_searchOpcode, ?_⟩
    rw [hstate.board]
    exact hcode
  again := by
    intro j hj m' hstate
    obtain ⟨hlt, hbefore, hend⟩ := m.searchEnd_spec d
    rw [hstate.goesBack (by omega), Bool.eq_iff_iff, Bool.and_eq_true, decide_eq_true_iff,
      Bool.not_eq_true', decide_eq_true_iff]
    constructor
    · rintro ⟨hmore, hmatch⟩
      by_contra hover
      obtain rfl : j = m.searchEnd d := by omega
      rcases hend with hfound | hlast
      · rw [hfound] at hmatch
        cases hmatch
      · omega
    · intro hmore
      exact ⟨by omega, hbefore j (by omega)⟩
  next := fun j hj m' hexecutes hstate => hstate.next hexecutes

/-- **Repeating searches find.**  A repeating search that no interrupt disturbs ends behind the first
byte that equals the accumulator, or behind the last one if none does, and takes one step for each byte
that it passes.  Z tells whether the byte was found and P/V whether others are left; the address latch
goes one place on, from the address of the second byte of the instruction if this has been repeated.
Memory, ports, accumulator, DE and carry are kept. -/
theorem search_finds (hm : m.Undisturbed (m.searchEnd d + 1))
    (hcode : m.board.memory.HoldsExtended m.processor.registers.pc d.searchOpcode) :
    let k := m.processor.registers
    let i := m.searchEnd d
    let final := (m.steps (i + 1)).machine.processor.registers
    m.Finishes (i + 1) ∧ m.Searching d (i + 1) (m.steps (i + 1)).machine ∧
      final.bc.toNat = wordCount k.bc - (i + 1) ∧
      final.f.n = true ∧ final.f.z = m.matchesAt d i ∧ final.f.p = (final.bc != 0) ∧
      final.wz = d.step (if 0 < i then k.pc + 1 else k.wz) := by
  intro k i final
  have hloop := loop_searching hcode
  have hlt : i < wordCount k.bc := (m.searchEnd_spec d).1
  have hreached : m.Searching d (i + 1) (m.steps (i + 1)).machine := hloop.state hm (Nat.le_refl _)
  -- The flags and the latch are those that the last iteration leaves.
  have hlast := hloop.last hm i.succ_pos
  rw [Nat.add_sub_cancel] at hlast
  obtain ⟨hstate, hexecutes, hover, hnext⟩ := hlast
  have hfinal : final = (m.steps i).machine.next.processor.registers :=
    congrArg (fun m => m.processor.registers) hnext
  obtain ⟨hn, hz, hp⟩ := hstate.flags_next hexecutes
  rw [← hfinal] at hn hz hp
  refine ⟨hloop.finishes hm i.succ_pos, hreached, ?_, hn, hz, hp, ?_⟩
  · have hle : wordCount k.bc ≤ 65536 := (wordCount_spec k.bc).2.1
    rw [hreached.bc, word_sub_ofNat hlt, UInt16.toNat_ofNat']
    exact Nat.mod_eq_of_lt (by omega)
  · have hzero : i = 0 ↔ ¬ 0 < i := by omega
    rw [hfinal, hexecutes.wz_next_of_search hover, hloop.wz_steps hm (.inr rfl) i.lt_succ_self,
      if_congr hzero rfl rfl, ite_not]

/-- A byte that is found in the last place is told from one that is not found by Z. -/
theorem search_finds_last :
    let registers : Registers :=
      { Registers.powerOn with a := 0xAA, b := 0, c := 2, h := 0, l := 0x11 }
    let code : Memory := (Memory.zero.write 0x00 0xED).write 0x01 0xB9
    let memory : Memory := (code.write 0x11 0xBB).write 0x10 0xAA
    let m : Machine := { processor := { registers }, board := { memory } }
    let final := (m.steps 2).machine.processor.registers
    m.searchEnd .down = 1 ∧ m.Undisturbed 2 ∧
      memory.HoldsExtended 0 Direction.down.searchOpcode ∧
      final.pc = 2 ∧ final.bc.toNat = 0 ∧ final.f.z = true ∧ final.wz = 0 ∧
      (m.steps 2).duration = 37 := by
  intro registers code memory m final
  have hcount : wordCount m.processor.registers.bc = 2 := by decide
  have hhl : m.processor.registers.hl = 0x11 := by decide
  have hdiffers : m.matchesAt .down 0 = false := by
    simp [matchesAt, hhl, Direction.advance, read, m, registers, memory, Memory.read_write]
  have hmatches : m.matchesAt .down 1 = true := by
    simp [matchesAt, hhl, Direction.advance, read, m, registers, memory, Memory.read_write]
  have hend : m.searchEnd .down = 1 := by
    simp [searchEnd, hcount, List.range_succ, hdiffers, hmatches]
  have hm : m.Undisturbed 2 := undisturbed_of_idle rfl ⟨rfl, rfl⟩ 2
  have hcode : memory.HoldsExtended 0 Direction.down.searchOpcode :=
    { first := by simp [memory, code, Memory.read_write]
      second := by simp [memory, code, Memory.read_write, Direction.searchOpcode] }
  have hlatch : Direction.down.step (m.processor.registers.pc + 1) = 0 := by decide
  obtain ⟨hfinishes, -, hbc, -, hz, -, hwz⟩ :=
    search_finds (m := m) (d := .down) (hend.symm ▸ hm) hcode
  rw [hend, hcount] at hbc
  rw [hend, hmatches] at hz
  rw [hend, if_pos Nat.one_pos, hlatch] at hwz
  rw [hend] at hfinishes
  exact ⟨hend, hm, hcode, hfinishes.goesOn, hbc, hz, hwz, hfinishes.duration⟩

end Machine

end Z80

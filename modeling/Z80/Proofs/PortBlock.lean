import Z80.Proofs.Repeat
import Z80.Proofs.Word

/-!
# Blocks through ports

Repeating input and output pass as many bytes as B says through ports, 256 for zero, and count B down on
the way.  The port of a byte has what is left of B in the high half of its number, but the two families
look at B at different times: input before it is counted down and output after that.

`Machine.received` and `Machine.sent` say which bytes come in and go out, and `Machine.port_blocks` that
they do, in this order, and what the two families have in common (`Machine.CountsOut`).
-/

namespace Z80

namespace Direction

/-- The opcode of repeating input in a direction. -/
def inputOpcode : Direction → UInt8
  | .up => 0xB2
  | .down => 0xBA

/-- The opcode of repeating output in a direction. -/
def outputOpcode : Direction → UInt8
  | .up => 0xB3
  | .down => 0xBB

variable (d : Direction)

lemma extendedOperation_inputOpcode : extendedOperation d.inputOpcode = .blockInput d true := by
  cases d <;> rfl

lemma extendedOperation_outputOpcode : extendedOperation d.outputOpcode = .blockOutput d true := by
  cases d <;> rfl

end Direction

namespace Machine

variable {m : Machine} {d : Direction}

/-! ## What passes -/

/-- The memory after `n` bytes have come in: the port of each has in its number what is left of B before
the byte has been counted. -/
def received (m : Machine) (d : Direction) (n : Nat) : Memory :=
  let k := m.processor.registers
  m.board.memory.filled d k.hl (fun i => m.board.inputs (word (k.b - UInt8.ofNat i) k.c)) n

/-- The first `n` bytes that go out and their ports: each has in its number what is left of B after the
byte has been counted. -/
def sent (m : Machine) (d : Direction) (n : Nat) : Array (UInt16 × UInt8) :=
  let k := m.processor.registers
  ((List.range n).map fun i =>
    (word (k.b - 1 - UInt8.ofNat i) k.c, m.read (d.advance k.hl i))).toArray

/-- The next byte that goes out comes last. -/
lemma sent_succ (m : Machine) (d : Direction) (n : Nat) :
    let k := m.processor.registers
    m.sent d (n + 1) =
      (m.sent d n).push (word (k.b - 1 - UInt8.ofNat n) k.c, m.read (d.advance k.hl n)) := by
  simp [sent, List.range_succ]

/-! ## One byte -/

/-- The next step counts B down and moves HL on.  C is kept, and Z tells whether B has become zero. -/
structure PassesByte (m : Machine) (d : Direction) : Prop where
  /-- B is counted down. -/
  b : m.next.processor.registers.b = m.processor.registers.b - 1
  /-- C is kept. -/
  c : m.next.processor.registers.c = m.processor.registers.c
  /-- HL moves on. -/
  hl : m.next.processor.registers.hl = d.step m.processor.registers.hl
  /-- The flag tells whether this was the last byte. -/
  z : m.next.processor.registers.f.z = (m.processor.registers.b - 1 == 0)

/-- An iteration of input or output does so. -/
lemma AtExtended.passesByte {op : Operation} (h : m.AtExtended op)
    (hop : op = .blockInput d true ∨ op = .blockOutput d true) : m.PassesByte d := by
  have hbank := h.bank_next.1
  rcases hop with rfl | rfl
  all_goals
    replace hbank := hbank.trans (Registers.toBank_rewindIf _ _)
    exact
      { b := congrArg Bank.b hbank
        c := (congrArg Bank.c hbank :)
        hl := (congrArg Bank.hl hbank).trans (word_high_low _)
        z := congrArg (fun k : Bank => k.f.z) hbank }

/-- An iteration of input stores the byte of the port in BC at HL. -/
lemma AtExtended.board_next_of_input (h : m.AtExtended (.blockInput d true)) :
    let k := m.processor.registers
    m.next.board =
      { m.board with memory := m.board.memory.write k.hl (m.board.inputs k.bc) } :=
  h.bank_next.2

/-- An iteration of output sends the byte at HL to the port in BC with B counted down. -/
lemma AtExtended.board_next_of_output (h : m.AtExtended (.blockOutput d true)) :
    let k := m.processor.registers
    m.next.board =
      { m.board with writes := m.board.writes.push (word (k.b - 1) k.c, m.read k.hl) } :=
  h.bank_next.2

/-! ## Counting -/

/-- In the machine `m'`, the registers of `m` have counted `n` bytes. -/
structure Counting (m : Machine) (d : Direction) (n : Nat) (m' : Machine) : Prop where
  /-- What is left is counted. -/
  b : m'.processor.registers.b = m.processor.registers.b - UInt8.ofNat n
  /-- C is kept. -/
  c : m'.processor.registers.c = m.processor.registers.c
  /-- The next byte passes there. -/
  hl : m'.processor.registers.hl = d.advance m.processor.registers.hl n

/-- No byte has been counted at first. -/
lemma Counting.refl (m : Machine) (d : Direction) : m.Counting d 0 m where
  b := (UInt8.sub_zero _).symm
  c := rfl
  hl := (d.advance_zero _).symm

/-- Counting one byte more. -/
lemma Counting.next {n : Nat} {m' : Machine} (h : m.Counting d n m') (hm' : m'.PassesByte d) :
    m.Counting d (n + 1) m'.next where
  b := by
    rw [hm'.b, h.b, UInt8.ofNat_add]
    grind
  c := hm'.c.trans h.c
  hl := by rw [hm'.hl, h.hl, d.step_advance]

/-- Input and output go back unless B is one. -/
lemma goesBack_of_port {op : Operation} (hop : op = .blockInput d true ∨ op = .blockOutput d true)
    (m : Machine) : m.goesBack op = (m.processor.registers.b != 1) := by
  rcases hop with rfl | rfl <;> rfl

/-- Input and output go back until B has been counted down. -/
lemma Counting.goesBack {op : Operation} (hop : op = .blockInput d true ∨ op = .blockOutput d true)
    {n : Nat} {m' : Machine} (h : m.Counting d n m') (hn : n < byteCount m.processor.registers.b) :
    m'.goesBack op = decide (n + 1 < byteCount m.processor.registers.b) := by
  rw [goesBack_of_port hop, h.b, byte_sub_ofNat_ne_one hn]

/-- The instruction at the program counter counts B down to zero, one step for each byte. -/
structure CountsOut (m : Machine) (d : Direction) : Prop where
  /-- The instruction is over when B is zero. -/
  finishes : m.Finishes (byteCount m.processor.registers.b)
  /-- B is zero in the end. -/
  b : (m.steps (byteCount m.processor.registers.b)).machine.processor.registers.b = 0
  /-- C is kept. -/
  c : (m.steps (byteCount m.processor.registers.b)).machine.processor.registers.c =
    m.processor.registers.c
  /-- HL has moved on by one place for each byte. -/
  hl : (m.steps (byteCount m.processor.registers.b)).machine.processor.registers.hl =
    d.advance m.processor.registers.hl (byteCount m.processor.registers.b)
  /-- Z is set in the end. -/
  z : (m.steps (byteCount m.processor.registers.b)).machine.processor.registers.f.z = true

/-- A loop of input or output counts B down.  Before its last iteration B is one. -/
lemma Loop.countsOut {op : Operation} (hop : op = .blockInput d true ∨ op = .blockOutput d true)
    {State : Nat → Machine → Prop} (hstate : ∀ {j m'}, State j m' → m.Counting d j m')
    (h : m.Loop op (byteCount m.processor.registers.b) State)
    (hm : m.Undisturbed (byteCount m.processor.registers.b)) :
    m.CountsOut d ∧ ∃ before : Machine, before.AtExtended op ∧ before.processor.registers.b = 1 ∧
      before.processor.registers.c = m.processor.registers.c ∧
      (m.steps (byteCount m.processor.registers.b)).machine = before.next := by
  obtain ⟨hpos, -, hcount⟩ := byteCount_spec m.processor.registers.b
  have hend := hstate (h.state hm (Nat.le_refl _))
  obtain ⟨hbefore, hexecutes, hover, hnext⟩ := h.last hm hpos
  set before := (m.steps (byteCount m.processor.registers.b - 1)).machine
  have hone : before.processor.registers.b = 1 := by
    rw [goesBack_of_port hop, bne_eq_false_iff_eq] at hover
    exact hover
  refine ⟨?_, before, hexecutes, hone, (hstate hbefore).c, hnext⟩
  constructor
  case finishes => exact h.finishes hm hpos
  case b =>
    rw [hend.b, hcount]
    exact UInt8.sub_self _
  case c => exact hend.c
  case hl => exact hend.hl
  case z =>
    rw [hnext, (hexecutes.passesByte hop).z, hone]
    rfl

/-! ## All bytes -/

/-- The machine `m'` is what input makes of `m` by storing `n` bytes. -/
structure Receiving (m : Machine) (d : Direction) (n : Nat) (m' : Machine) : Prop
    extends m.Counting d n m' where
  /-- The bytes have been stored, and nothing else happened to the board. -/
  board : m'.board = { m.board with memory := m.received d n }

/-- The machine `m'` is what output makes of `m` by sending `n` bytes. -/
structure Sending (m : Machine) (d : Direction) (n : Nat) (m' : Machine) : Prop
    extends m.Counting d n m' where
  /-- The bytes have been recorded, and nothing else happened to the board. -/
  board : m'.board = { m.board with writes := m.portWrites ++ m.sent d n }

/-- Storing one byte more. -/
lemma Receiving.next {n : Nat} {m' : Machine} (h : m.Receiving d n m')
    (hm' : m'.AtExtended (.blockInput d true)) : m.Receiving d (n + 1) m'.next where
  toCounting := h.toCounting.next (hm'.passesByte (.inl rfl))
  board := by
    have hbc : m'.processor.registers.bc =
        word (m.processor.registers.b - UInt8.ofNat n) m.processor.registers.c := by
      rw [← h.b, ← h.c]
      rfl
    rw [hm'.board_next_of_input, hbc, h.hl, h.board]
    rfl

/-- Sending one byte more. -/
lemma Sending.next {n : Nat} {m' : Machine} (h : m.Sending d n m')
    (hm' : m'.AtExtended (.blockOutput d true)) : m.Sending d (n + 1) m'.next where
  toCounting := h.toCounting.next (hm'.passesByte (.inr rfl))
  board := by
    have hleft : m.processor.registers.b - UInt8.ofNat n - 1 =
        m.processor.registers.b - 1 - UInt8.ofNat n := by grind
    rw [hm'.board_next_of_output, read, h.b, h.c, h.hl, h.board, hleft, sent_succ, Array.push_append]
    rfl

/-- The loop of repeating input. -/
lemma loop_receiving
    (hcode : ∀ i < byteCount m.processor.registers.b,
      (m.received d i).HoldsExtended m.processor.registers.pc d.inputOpcode) :
    m.Loop (.blockInput d true) (byteCount m.processor.registers.b) (m.Receiving d) where
  repeats := rfl
  start := { toCounting := Counting.refl m d, board := rfl }
  code := by
    intro j hj m' hstate
    refine ⟨d.inputOpcode, d.extendedOperation_inputOpcode, ?_⟩
    rw [hstate.board]
    exact hcode j hj
  again := fun j hj m' hstate => hstate.toCounting.goesBack (.inl rfl) hj
  next := fun j hj m' hexecutes hstate => hstate.next hexecutes

/-- The loop of repeating output. -/
lemma loop_sending
    (hcode : m.board.memory.HoldsExtended m.processor.registers.pc d.outputOpcode) :
    m.Loop (.blockOutput d true) (byteCount m.processor.registers.b) (m.Sending d) where
  repeats := rfl
  start :=
    { toCounting := Counting.refl m d
      board := congrArg (fun writes => { m.board with writes }) Array.append_empty.symm }
  code := by
    intro j hj m' hstate
    refine ⟨d.outputOpcode, d.extendedOperation_outputOpcode, ?_⟩
    rw [hstate.board]
    exact hcode
  again := fun j hj m' hstate => hstate.toCounting.goesBack (.inr rfl) hj
  next := fun j hj m' hexecutes hstate => hstate.next hexecutes

/-- **Repeating input and output.**  Where no interrupt disturbs it, repeating output takes as many steps
as B says, 256 for zero, and adds to the record of port writes one byte after the other from HL on, each
with its port.  So does repeating input, which stores the bytes of its ports from HL on, if the
instruction is still there before each of them.  In the end B is zero, C is kept, Z is set, and the
address latch is next to the last port. -/
theorem port_blocks (hm : m.Undisturbed (byteCount m.processor.registers.b)) :
    let k := m.processor.registers
    let n := byteCount k.b
    let final := (m.steps n).machine
    (m.board.memory.HoldsExtended k.pc d.outputOpcode →
      m.CountsOut d ∧
        final.board = { m.board with writes := m.portWrites ++ m.sent d n } ∧
        final.processor.registers.wz = d.step k.c.toUInt16) ∧
    ((∀ i < n, (m.received d i).HoldsExtended k.pc d.inputOpcode) →
      m.CountsOut d ∧
        final.board = { m.board with memory := m.received d n } ∧
        final.processor.registers.wz = d.step (0x100 + k.c.toUInt16)) := by
  intro k n final
  constructor
  · intro hcode
    have hloop := loop_sending hcode
    obtain ⟨hcounts, before, hexecutes, hb, hc, hnext⟩ :=
      hloop.countsOut (.inr rfl) (fun hstate => hstate.toCounting) hm
    refine ⟨hcounts, (hloop.state hm (Nat.le_refl n)).board, ?_⟩
    show (m.steps n).machine.processor.registers.wz = _
    rw [hnext, hexecutes.wz_next_of_repeats rfl]
    show d.step (word (before.processor.registers.b - 1) before.processor.registers.c) = _
    rw [hb, hc]
    exact congrArg d.step (UInt16.zero_add _)
  · intro hcode
    have hloop := loop_receiving hcode
    obtain ⟨hcounts, before, hexecutes, hb, hc, hnext⟩ :=
      hloop.countsOut (.inl rfl) (fun hstate => hstate.toCounting) hm
    refine ⟨hcounts, (hloop.state hm (Nat.le_refl n)).board, ?_⟩
    show (m.steps n).machine.processor.registers.wz = _
    rw [hnext, hexecutes.wz_next_of_repeats rfl]
    show d.step (word before.processor.registers.b before.processor.registers.c) = _
    rw [hb, hc]
    rfl

/-- Two bytes go out upwards, and two come in downwards from ports that answer with the high half of
their number. -/
theorem port_blocks_two :
    let registers : Registers := { Registers.powerOn with b := 2, c := 7, h := 0, l := 0x10 }
    let sending : Memory := (((Memory.zero.write 0x00 0xED).write 0x01 0xB3).write 0x10 0xAA).write
      0x11 0xBB
    let receiving : Memory := (Memory.zero.write 0x00 0xED).write 0x01 0xBA
    let output : Machine := { processor := { registers }, board := { memory := sending } }
    let input : Machine :=
      { processor := { registers }, board := { memory := receiving, inputs := high } }
    output.Undisturbed 2 ∧ sending.HoldsExtended 0 Direction.up.outputOpcode ∧
      (output.steps 2).machine.portWrites = #[(0x0107, 0xAA), (0x0007, 0xBB)] ∧
      (output.steps 2).duration = 37 ∧
      (output.steps 2).machine.processor.registers.wz = 8 ∧
      input.Undisturbed 2 ∧
      (∀ i < 2, (input.received .down i).HoldsExtended 0 Direction.down.inputOpcode) ∧
      (input.steps 2).machine.read 0x10 = 2 ∧ (input.steps 2).machine.read 0x0F = 1 ∧
      (input.steps 2).machine.processor.registers.wz = 0x0106 := by
  intro registers sending receiving output input
  have hundisturbed : output.Undisturbed 2 := undisturbed_of_idle rfl ⟨rfl, rfl⟩ 2
  have hundisturbed' : input.Undisturbed 2 := undisturbed_of_idle rfl ⟨rfl, rfl⟩ 2
  have hcode : sending.HoldsExtended 0 Direction.up.outputOpcode :=
    { first := by simp [sending, Memory.read_write]
      second := by simp [sending, Memory.read_write, Direction.outputOpcode] }
  have hcode' : ∀ i < 2, (input.received .down i).HoldsExtended 0 Direction.down.inputOpcode := by
    intro i hi
    have hheld : receiving.HoldsExtended 0 Direction.down.inputOpcode :=
      { first := by simp [receiving, Memory.read_write]
        second := by simp [receiving, Memory.read_write, Direction.inputOpcode] }
    have hapart : ∀ j < 2, (0 : UInt16) ≠ Direction.down.advance registers.hl j ∧
        (0 : UInt16) + 1 ≠ Direction.down.advance registers.hl j := by decide
    exact hheld.filled _ fun j hj => hapart j (Nat.lt_trans hj hi)
  obtain ⟨hcounts, hboard, hwz⟩ :=
    (port_blocks (m := output) (d := .up) hundisturbed).1 hcode
  obtain ⟨-, hboard', hwz'⟩ :=
    (port_blocks (m := input) (d := .down) hundisturbed').2 hcode'
  have hsent : output.sent .up 2 = #[(0x0107, 0xAA), (0x0007, 0xBB)] := by
    have hfirst : output.read 0x10 = 0xAA := by simp [read, output, sending, Memory.read_write]
    have hsecond : output.read 0x11 = 0xBB := by simp [read, output, sending, Memory.read_write]
    have hup : Direction.up.advance registers.hl 0 = 0x10 ∧
        Direction.up.advance registers.hl 1 = 0x11 := by decide
    rw [sent_succ, sent_succ, hup.1, hup.2, hfirst, hsecond]
    decide
  have hstored : ∀ a, (input.steps 2).machine.read a = (input.received .down 2).read a :=
    fun a => congrArg (fun board => board.memory.read a) hboard'
  have hdown : Direction.down.advance registers.hl 0 = 0x10 ∧
      Direction.down.advance registers.hl 1 = 0x0F := by decide
  have hreceived : input.received .down 2 = (receiving.write 0x10 2).write 0x0F 1 := by
    have hports : high (word (registers.b - UInt8.ofNat 0) registers.c) = 2 ∧
        high (word (registers.b - UInt8.ofNat 1) registers.c) = 1 := by decide
    show (receiving.write (Direction.down.advance registers.hl 0)
      (high (word (registers.b - UInt8.ofNat 0) registers.c))).write
      (Direction.down.advance registers.hl 1)
      (high (word (registers.b - UInt8.ofNat 1) registers.c)) = _
    rw [hdown.1, hdown.2, hports.1, hports.2]
  have hlatch : Direction.up.step registers.c.toUInt16 = 8 := by decide
  have hlatch' : Direction.down.step (0x100 + registers.c.toUInt16) = 0x0106 := by decide
  refine ⟨hundisturbed, hcode, ?_, hcounts.finishes.duration, hwz.trans hlatch, hundisturbed', hcode',
    ?_, ?_, hwz'.trans hlatch'⟩
  · have hempty : #[] ++ output.sent .up 2 = output.sent .up 2 := Array.empty_append
    rw [← hsent, ← hempty]
    exact congrArg Board.writes hboard
  · rw [hstored, hreceived]
    simp [Memory.read_write]
  · rw [hstored, hreceived]
    simp [Memory.read_write]

end Machine

end Z80

import Z80.Proofs.Service
import Z80.Proofs.StackUse

/-!
# Nesting on the stack

Words that are put on the stack one after the other are taken from it in the opposite order.  The two
directions are carried out by different plans, which go through the bytes of a word in opposite orders, and
the stack pointer may pass the end of the address space at any time, also between the two bytes of a word.
What makes them fit is the invariant `Memory.Stacked`: from the top upwards lie the words that have been put
on the stack, the latest first, each with its low byte first.  It is kept by every further word as long as the
words find room in the address space, because until then no address is used twice.

`Machine.stack_discipline` states this for any number of words up to that bound, and for every step that
uses the stack by accepting an interrupt or by the opcode that it executes (`StackUse`): it changes the stack
pointer and the board just as `Machine.pushWord` and `Machine.popWord` do.
-/

namespace Z80

/-! ## The addresses below the stack pointer -/

/-- The `n` addresses below `sp`, the highest first. -/
def below (sp : UInt16) (n : Nat) : List UInt16 :=
  (List.range n).map fun j => sp - UInt16.ofNat (j + 1)

/-- An address is among the `n` below `sp` if it is less than `n` away from the highest of them. -/
lemma mem_below {sp a : UInt16} {n : Nat} : a ∈ below sp n ↔ (sp - 1 - a).toNat < n := by
  simp only [below, List.mem_map, List.mem_range]
  constructor
  · rintro ⟨j, hj, rfl⟩
    have hdistance : sp - 1 - (sp - UInt16.ofNat (j + 1)) = UInt16.ofNat j := by
      rw [UInt16.ofNat_add]
      grind
    rw [hdistance, UInt16.toNat_ofNat']
    exact Nat.lt_of_le_of_lt (Nat.mod_le _ _) hj
  · intro h
    refine ⟨_, h, ?_⟩
    rw [UInt16.ofNat_add, UInt16.ofNat_toNat]
    grind

/-- Every distance up to `n` leads to one of the addresses. -/
lemma sub_mem_below (sp : UInt16) {j n : Nat} (h : j < n) : sp - UInt16.ofNat (j + 1) ∈ below sp n :=
  List.mem_map.2 ⟨j, List.mem_range.2 h, rfl⟩

/-- The addresses below `sp` are the next two and those below them. -/
lemma mem_below_add_two {sp a : UInt16} {n : Nat} :
    a ∈ below sp (n + 2) ↔ a ∈ [sp - 1, sp - 2] ∨ a ∈ below (sp - 2) n := by
  have hnext : a ∈ [sp - 1, sp - 2] ↔ sp - 1 - a = 0 ∨ sp - 1 - a = 1 := by
    simp only [List.mem_cons, List.not_mem_nil, or_false]
    grind
  have hrest : sp - 2 - 1 - a = sp - 1 - a - 2 := by grind
  rw [mem_below, mem_below, hnext, hrest, ← UInt16.toNat_inj, ← UInt16.toNat_inj, UInt16.toNat_zero,
    UInt16.toNat_one]
  by_cases hnear : (sp - 1 - a).toNat < 2
  · omega
  · have hfar : (sp - 1 - a - 2).toNat = (sp - 1 - a).toNat - 2 :=
      UInt16.toNat_sub_of_le _ _ (UInt16.le_iff_toNat_le.2 (Nat.le_of_not_lt hnear))
    rw [hfar]
    omega

/-- As long as there is room, the two bytes below `sp` are not among the `n` bytes from there upwards. -/
lemma notMem_of_mem_below {sp a : UInt16} {n : Nat} (hroom : n + 2 ≤ addressSpace)
    (ha : a ∈ below (sp + UInt16.ofNat n) n) : a ∉ [sp - 1, sp - 2] := by
  change n + 2 ≤ 65536 at hroom
  have htoNat : ∀ d < 2, (UInt16.ofNat (n + d)).toNat = n + d := fun d hd =>
    UInt16.toNat_ofNat_of_lt (show n + d < 65536 by omega)
  rw [mem_below] at ha
  simp only [List.mem_cons, List.not_mem_nil, or_false]
  -- Counted down from the highest of the `n` bytes, around the end, the two come right after the lowest.
  rintro (rfl | rfl)
  · have hdistance : sp + UInt16.ofNat n - 1 - (sp - 1) = UInt16.ofNat (n + 0) := by grind
    rw [hdistance, htoNat 0 (by omega)] at ha
    omega
  · have hdistance : sp + UInt16.ofNat n - 1 - (sp - 2) = UInt16.ofNat (n + 1) := by
      rw [UInt16.ofNat_add]
      grind
    rw [hdistance, htoNat 1 (by omega)] at ha
    omega

/-- One more word is taken up from the top. -/
lemma sub_two_mul_succ (sp : UInt16) (n : Nat) :
    sp - UInt16.ofNat (2 * (n + 1)) = sp - 2 - UInt16.ofNat (2 * n) := by
  rw [Nat.mul_succ, UInt16.ofNat_add]
  grind

/-- One more word lies from the top upwards. -/
lemma add_two_mul_succ (top : UInt16) (n : Nat) :
    top + UInt16.ofNat (2 * (n + 1)) = top + 2 + UInt16.ofNat (2 * n) := by
  rw [Nat.mul_succ, UInt16.ofNat_add]
  grind

namespace Memory

/-! ## Words on the stack -/

/-- The words lie on a stack, the one at its top first. -/
def Stacked (m : Memory) (top : UInt16) : List UInt16 → Prop
  | [] => True
  | v :: words => m.readWord top = v ∧ m.Stacked (top + 2) words

/-- The memory with words put on the stack one after the other. -/
def pushAll (m : Memory) (sp : UInt16) : List UInt16 → Memory
  | [] => m
  | v :: words => (m.push sp v).pushAll (sp - 2) words

/-- A word is read from the two bytes from its address upwards, the low byte first. -/
lemma bytes_readWord (m : Memory) (a : UInt16) :
    m.read a = low (m.readWord a) ∧ m.read (a + 1) = high (m.readWord a) := by
  rw [readWord, low_word, high_word]
  exact ⟨rfl, rfl⟩

variable {m m' : Memory} {top : UInt16} {words : List UInt16}

/-- Where the bytes of a stack are the same, the same words lie on it. -/
lemma Stacked.of_agree (h : m.Stacked top words)
    (hagree : ∀ a ∈ below (top + UInt16.ofNat (2 * words.length)) (2 * words.length),
      m'.read a = m.read a) :
    m'.Stacked top words := by
  induction words generalizing top with
  | nil => trivial
  | cons v words ih =>
    obtain ⟨hv, hwords⟩ := h
    rw [List.length_cons, add_two_mul_succ] at hagree
    set n := 2 * words.length
    set base := top + 2 + UInt16.ofNat n with hbase
    have hlow : base - UInt16.ofNat (n + 1 + 1) = top := by
      rw [hbase, UInt16.ofNat_add, UInt16.ofNat_add]
      grind
    have hhigh : base - UInt16.ofNat (n + 1) = top + 1 := by
      rw [hbase, UInt16.ofNat_add]
      grind
    have hfirst : m'.read top = m.read top := by
      rw [← hlow]
      exact hagree _ (sub_mem_below base (Nat.lt_add_one (n + 1)))
    have hsecond : m'.read (top + 1) = m.read (top + 1) := by
      rw [← hhigh]
      exact hagree _ (sub_mem_below base (Nat.lt_add_of_pos_right Nat.two_pos))
    refine ⟨?_, ih hwords fun a ha => hagree a ?_⟩
    · rw [← hv, readWord, readWord, hfirst, hsecond]
    · exact mem_below.2 (Nat.lt_add_right 2 (mem_below.1 ha))

/-- A further word lies on the stack with those before it, if there is room for it. -/
lemma Stacked.push {sp : UInt16} (h : m.Stacked sp words) (hroom : 2 * (words.length + 1) ≤ addressSpace)
    (v : UInt16) : (m.push sp v).Stacked (sp - 2) (v :: words) := by
  refine ⟨m.readWord_push sp v, ?_⟩
  rw [UInt16.sub_add_cancel]
  exact h.of_agree fun a ha => m.read_push_of_notMem v (notMem_of_mem_below hroom ha)

/-- The words of a part of the stack lie above those on top of them. -/
lemma Stacked.append {above : List UInt16} (h : m.Stacked top (above ++ words)) :
    m.Stacked top above ∧ m.Stacked (top + UInt16.ofNat (2 * above.length)) words := by
  induction above generalizing top with
  | nil => exact ⟨trivial, by simpa using h⟩
  | cons v above ih =>
    obtain ⟨hv, hrest⟩ := h
    obtain ⟨habove, hwords⟩ := ih hrest
    refine ⟨⟨hv, habove⟩, ?_⟩
    rw [List.length_cons, add_two_mul_succ]
    exact hwords

section PushAll

variable (m) (sp : UInt16)

/-- Words that are put on the stack change no byte but those below its top that they take up. -/
lemma read_pushAll {a : UInt16} (ha : a ∉ below sp (2 * words.length)) :
    (m.pushAll sp words).read a = m.read a := by
  induction words generalizing m sp with
  | nil => rfl
  | cons v words ih =>
    rw [List.length_cons, Nat.mul_succ, mem_below_add_two, not_or] at ha
    rw [pushAll, ih _ _ ha.2, read_push_of_notMem _ _ ha.1]

/-- Words that are put on the stack lie there, the latest at the top, above those that lay there before. -/
lemma stacked_pushAll {rest : List UInt16} (h : m.Stacked sp rest)
    (hroom : 2 * (words.length + rest.length) ≤ addressSpace) :
    (m.pushAll sp words).Stacked (sp - UInt16.ofNat (2 * words.length)) (words.reverse ++ rest) := by
  induction words generalizing m sp rest with
  | nil =>
    show m.Stacked (sp - 0) rest
    rwa [UInt16.sub_zero]
  | cons v words ih =>
    rw [List.length_cons] at hroom
    have hroomRest : 2 * (words.length + (v :: rest).length) ≤ addressSpace := by
      rw [List.length_cons]
      omega
    rw [pushAll, List.length_cons, sub_two_mul_succ, List.reverse_cons, List.append_assoc]
    exact ih _ _ (h.push (by omega) v) hroomRest

end PushAll

end Memory

/-! ## Putting and taking -/

namespace Machine

variable (m : Machine)

/-- Carries out a plan by itself, and gives the address that it notes. -/
def carryOut (plan : Registers → Plan) : UInt16 × Machine :=
  let result := (plan m.processor.registers).run m.board
  (result.1.address,
    { processor := { m.processor with registers := result.1.registers }, board := result.2 })

/-- The machine with a word put on the stack. -/
def pushWord (v : UInt16) : Machine :=
  (m.carryOut fun k => .done (k.push v)).2

/-- The word on top of the stack, and the machine with it taken off. -/
def popWord : UInt16 × Machine :=
  m.carryOut fun k => k.pop fun v rest => { registers := rest, address := v }

/-- The machine with words put on the stack one after the other. -/
def pushAll (words : List UInt16) : Machine :=
  words.foldl pushWord m

/-- The words that are taken from the stack one after the other, and the machine after that. -/
def popAll (m : Machine) : Nat → List UInt16 × Machine
  | 0 => ([], m)
  | n + 1 => (m.popWord.1 :: (m.popWord.2.popAll n).1, (m.popWord.2.popAll n).2)

/-- The machine with another stack pointer and other memory. -/
def withStack (sp : UInt16) (memory : Memory) : Machine where
  processor := { m.processor with registers := { m.processor.registers with sp } }
  board := { m.board with memory }

/-- Putting words on the stack changes the stack pointer and the memory only. -/
lemma pushAll_eq (words : List UInt16) :
    m.pushAll words =
      m.withStack (m.processor.registers.sp - UInt16.ofNat (2 * words.length))
        (m.board.memory.pushAll m.processor.registers.sp words) := by
  induction words generalizing m with
  | nil =>
    show m = m.withStack (m.processor.registers.sp - 0) m.board.memory
    rw [UInt16.sub_zero]
    rfl
  | cons v words ih =>
    show (m.pushWord v).pushAll words = _
    rw [ih, List.length_cons, sub_two_mul_succ]
    rfl

/-- The stack pointer after words have been put on the stack. -/
lemma sp_pushAll (words : List UInt16) :
    (m.pushAll words).processor.registers.sp =
      m.processor.registers.sp - UInt16.ofNat (2 * words.length) :=
  congrArg (fun m' => m'.processor.registers.sp) (m.pushAll_eq words)

section Room

variable {words : List UInt16}

/-- Words that are put on the stack lie there, the latest at the top. -/
lemma stacked_pushAll (hroom : words.length ≤ 32768) :
    (m.pushAll words).board.memory.Stacked (m.pushAll words).processor.registers.sp words.reverse := by
  have hempty : m.board.memory.Stacked m.processor.registers.sp [] := trivial
  have hbytes : 2 * (words.length + ([] : List UInt16).length) ≤ addressSpace :=
    Nat.mul_le_mul_left 2 hroom
  have hstacked := Memory.stacked_pushAll _ _ hempty hbytes
  rw [List.append_nil] at hstacked
  rw [pushAll_eq]
  exact hstacked

/-- Each of the words lies where the stack pointer was right after it had been put there. -/
lemma readWord_pushAll (hroom : words.length ≤ 32768) {earlier later : List UInt16} {v : UInt16}
    (hwords : words = earlier ++ v :: later) :
    (m.pushAll words).board.memory.readWord
      (m.processor.registers.sp - UInt16.ofNat (2 * (earlier.length + 1))) = v := by
  have hlength : words.length = earlier.length + 1 + later.length := by
    rw [hwords, List.length_append, List.length_cons]
    omega
  have hreverse : words.reverse = later.reverse ++ v :: earlier.reverse := by
    rw [hwords, List.reverse_append, List.reverse_cons, List.append_assoc, List.singleton_append]
  have htop : (m.pushAll words).processor.registers.sp + UInt16.ofNat (2 * later.reverse.length) =
      m.processor.registers.sp - UInt16.ofNat (2 * (earlier.length + 1)) := by
    rw [sp_pushAll, hlength, List.length_reverse, Nat.mul_add 2 (earlier.length + 1), UInt16.ofNat_add]
    grind
  have hstacked := m.stacked_pushAll hroom
  rw [hreverse] at hstacked
  rw [← htop]
  exact hstacked.append.2.1

end Room

/-- Words that lie on the stack are taken from it, and nothing but the stack pointer changes. -/
lemma popAll_of_stacked {words : List UInt16}
    (h : m.board.memory.Stacked m.processor.registers.sp words) :
    m.popAll words.length =
      (words, m.withStack (m.processor.registers.sp + UInt16.ofNat (2 * words.length)) m.board.memory) := by
  induction words generalizing m with
  | nil =>
    show ([], m) = ([], m.withStack (m.processor.registers.sp + 0) m.board.memory)
    rw [UInt16.add_zero]
    rfl
  | cons v words ih =>
    obtain ⟨hv, hwords⟩ := h
    have hfirst : m.popWord.1 = v := hv
    rw [List.length_cons, add_two_mul_succ, popAll, ih m.popWord.2 hwords, hfirst]
    rfl

end Machine

/-! ## Steps that use the stack -/

namespace Machine

/-- Two machines have the same stack pointer and the same board. -/
def SameStack (m m' : Machine) : Prop :=
  m.processor.registers.sp = m'.processor.registers.sp ∧ m.board = m'.board

variable {m : Machine}

/-- The board after an instruction is what the instruction stores. -/
lemma board_next_of_ready (h : m.processor.Ready) :
    m.next.board = (m.processor.outcome m.board).store.run m.board := by
  rw [next, step, Processor.step_of_ready h, Processor.execute, Plan.run_eq]
  rfl

/-- The registers after an instruction are those of its outcome, but for the address latch. -/
lemma registers_next_of_ready (h : m.processor.Ready) :
    ∃ wz, m.next.processor.registers = { (m.processor.outcome m.board).registers with wz } :=
  ⟨_, Processor.registers_step_of_ready h m.board⟩

/-- An interrupt that is accepted puts the program counter on the stack. -/
lemma sameStack_of_accepted {i : Interrupt} (h : m.accepted? = some i) :
    m.next.SameStack (m.pushWord m.processor.registers.pc) := by
  rw [(next_of_accepted h).1]
  exact ⟨rfl, rfl⟩

/-- How the instruction at the program counter uses the stack, by its first two bytes. -/
def stackUse (m : Machine) : StackUse :=
  stackUseOf (m.read m.processor.registers.pc) (m.read (m.processor.registers.pc + 1))

/-- The address behind the instruction at the program counter, by its first two bytes. -/
def behind (m : Machine) : UInt16 :=
  m.processor.registers.pc + UInt16.ofNat
    (encodedLength (m.read m.processor.registers.pc) (m.read (m.processor.registers.pc + 1)))

/-- The operation that is found uses the stack as the bytes say. -/
lemma stackUse_decodeAt (m : Machine) :
    (decodeAt m.board m.processor.registers.pc).operation.stackUse = m.stackUse := by
  have hfirst : m.read m.processor.registers.pc = _ := (codeAt_zero m.board _).symm
  rw [stackUse, hfirst]
  exact (encoding_decode _).stackUse_eq

/-- When it has been fetched, the program counter is behind the instruction. -/
lemma pc_fetched_decodeAt (m : Machine) :
    ((decodeAt m.board m.processor.registers.pc).fetched m.processor.registers).pc = m.behind := by
  have hfirst : m.read m.processor.registers.pc = _ := (codeAt_zero m.board _).symm
  have hlength : (decodeAt m.board m.processor.registers.pc).length = _ := (encoding_decode _).length_eq
  rw [behind, hfirst, Instruction.fetched, hlength]
  rfl

/-- An instruction that puts a word on the stack does just that to the stack. -/
lemma sameStack_of_pushed? (h : m.processor.Ready) {v : UInt16}
    (hv : m.stackUse.pushed? m.processor.registers m.behind = some v) :
    m.next.SameStack (m.pushWord v) := by
  set i := decodeAt m.board m.processor.registers.pc
  have hpushed : i.operation.stackUse.pushed? (i.fetched m.processor.registers)
      (i.fetched m.processor.registers).pc = some v := by
    rw [m.stackUse_decodeAt, m.pc_fetched_decodeAt]
    exact (m.stackUse.pushed?_fetched _ _ _ _).trans hv
  obtain ⟨hsp, hstore⟩ := Operation.outcome_of_pushed? i.displacement i.immediate m.board hpushed
  obtain ⟨wz, hregisters⟩ := registers_next_of_ready h
  refine ⟨?_, ?_⟩
  · rw [hregisters]
    exact hsp
  · rw [board_next_of_ready h]
    exact congrArg (fun store => store.run m.board) hstore

/-- An instruction that takes a word from the stack does just that to the stack, and the word arrives. -/
lemma sameStack_of_pops (h : m.processor.Ready)
    (hpops : m.stackUse.pops m.processor.registers = true) :
    m.next.SameStack m.popWord.2 ∧ m.stackUse.received m.next.processor.registers = m.popWord.1 := by
  set i := decodeAt m.board m.processor.registers.pc
  have hpopped : i.operation.stackUse.pops (i.fetched m.processor.registers) = true := by
    rw [m.stackUse_decodeAt]
    exact (m.stackUse.pops_fetched _ _ _).trans hpops
  have hpair : i.operation.stackUse ≠ .pop .sp := by
    rw [m.stackUse_decodeAt]
    exact stackUseOf_ne_pop_sp _ _
  obtain ⟨hsp, hstore, hreceived⟩ :=
    Operation.outcome_of_pops i.displacement i.immediate m.board hpopped hpair
  rw [m.stackUse_decodeAt] at hreceived
  obtain ⟨wz, hregisters⟩ := registers_next_of_ready h
  refine ⟨⟨?_, ?_⟩, ?_⟩
  · rw [hregisters]
    exact hsp
  · rw [board_next_of_ready h]
    exact congrArg (fun store => store.run m.board) hstore
  · rw [hregisters, StackUse.received_wz]
    exact hreceived

/-! ## The discipline -/

/-- **The stack discipline.**  Words that are put on the stack change the stack pointer and the bytes below
it that they take up, wherever that is.  Each of them lies little-endian at the stack pointer as it is then,
and stays there under the words put on top of it.  Whatever happens in between, as long as the stack pointer
and the bytes of the stack are left alone, the words are taken off in the opposite order, which brings back
the stack pointer and changes nothing else.

Every step that uses the stack does to it what putting or taking one word does: the acceptance of an
interrupt, and, as the table of opcode bytes tells them, calls, restarts, returns, and putting or taking a
pair. -/
theorem stack_discipline (m : Machine) (words : List UInt16) (hroom : words.length ≤ 32768) :
    let sp := m.processor.registers.sp
    let pushed := m.pushAll words
    (∃ memory, pushed = m.withStack (sp - UInt16.ofNat (2 * words.length)) memory) ∧
    (∀ a ∉ below sp (2 * words.length), pushed.read a = m.read a) ∧
    (∀ earlier v later, words = earlier ++ v :: later →
      let reached := m.pushAll (earlier ++ [v])
      let top := reached.processor.registers.sp
      top = sp - UInt16.ofNat (2 * (earlier.length + 1)) ∧
      reached.read top = low v ∧ reached.read (top + 1) = high v ∧
      pushed.read top = low v ∧ pushed.read (top + 1) = high v) ∧
    (∀ m' : Machine, m'.processor.registers.sp = pushed.processor.registers.sp →
      (∀ a ∈ below sp (2 * words.length), m'.read a = pushed.read a) →
      m'.popAll words.length = (words.reverse, m'.withStack sp m'.board.memory)) ∧
    (∀ i, m.accepted? = some i → m.next.SameStack (m.pushWord m.processor.registers.pc)) ∧
    (m.processor.Ready →
      let k := m.processor.registers
      (decodeAt m.board k.pc).operation.stackUse = m.stackUse ∧
      (∀ v, m.stackUse.pushed? k m.behind = some v → m.next.SameStack (m.pushWord v)) ∧
      (m.stackUse.pops k = true →
        m.next.SameStack m.popWord.2 ∧
        m.stackUse.received m.next.processor.registers = m.popWord.1)) := by
  intro sp pushed
  have hpushed : pushed = m.withStack _ _ := m.pushAll_eq words
  refine ⟨⟨_, hpushed⟩, fun a ha => ?_, ?_, ?_, fun i => sameStack_of_accepted,
    fun hready => ⟨m.stackUse_decodeAt, fun v => sameStack_of_pushed? hready, sameStack_of_pops hready⟩⟩
  · rw [hpushed]
    exact Memory.read_pushAll _ sp ha
  · intro earlier v later hwords reached top
    have hroomReached : (earlier ++ [v]).length ≤ 32768 := by
      rw [hwords] at hroom
      simp only [List.length_append, List.length_cons, List.length_nil] at hroom ⊢
      omega
    have htop : top = sp - UInt16.ofNat (2 * (earlier.length + 1)) := by
      have hsp := m.sp_pushAll (earlier ++ [v])
      rwa [List.length_append] at hsp
    have hreached : reached.board.memory.readWord top = v := by
      rw [htop]
      exact m.readWord_pushAll hroomReached rfl
    have hpushedWord : pushed.board.memory.readWord top = v := by
      rw [htop]
      exact m.readWord_pushAll hroom hwords
    obtain ⟨hlow, hhigh⟩ := reached.board.memory.bytes_readWord top
    obtain ⟨hlow', hhigh'⟩ := pushed.board.memory.bytes_readWord top
    rw [hreached] at hlow hhigh
    rw [hpushedWord] at hlow' hhigh'
    exact ⟨htop, hlow, hhigh, hlow', hhigh'⟩
  · intro m' hsp hagree
    have hback : pushed.processor.registers.sp + UInt16.ofNat (2 * words.length) = sp := by
      rw [m.sp_pushAll words, UInt16.sub_add_cancel]
    have hstacked : m'.board.memory.Stacked m'.processor.registers.sp words.reverse := by
      rw [hsp]
      refine (m.stacked_pushAll hroom).of_agree ?_
      rw [List.length_reverse]
      exact fun a ha => hagree a (hback ▸ ha)
    have hpopped := m'.popAll_of_stacked hstacked
    rwa [List.length_reverse, hsp, hback] at hpopped

/-- Two words are put on a stack whose top is in the middle of a word at the end of the address space, and
on the same stack an index register is put, a call is made, AF is taken, and two kinds of return are made. -/
theorem stack_discipline_wrapping :
    let registers : Registers := { Registers.powerOn with sp := 1, ix := 0x5678 }
    let before : UInt8 → UInt8 → Machine := fun first second =>
      { processor := { registers }, board := { memory := (Memory.zero.write 0 first).write 1 second } }
    let m := before 0 0
    let words : List UInt16 := [0x1234, 0xABCD]
    let pushed := m.pushAll words
    words.length ≤ 32768 ∧ pushed.processor.registers.sp = 0xFFFD ∧
      pushed.read 0xFFFF = 0x34 ∧ pushed.read 0 = 0x12 ∧ pushed.read 1 = m.read 1 ∧
      pushed.popAll 2 = ([0xABCD, 0x1234], pushed.withStack 1 pushed.board.memory) ∧
      (∀ first second, (before first second).processor.Ready) ∧
      (before 0xDD 0xE5).next.SameStack ((before 0xDD 0xE5).pushWord 0x5678) ∧
      (before 0xCD 0x10).next.SameStack ((before 0xCD 0x10).pushWord 3) ∧
      (before 0xF1 0x00).next.SameStack (before 0xF1 0x00).popWord.2 ∧
      (before 0xF1 0x00).next.processor.registers.af = (before 0xF1 0x00).popWord.1 ∧
      (before 0xC9 0x00).next.SameStack (before 0xC9 0x00).popWord.2 ∧
      (before 0xC9 0x00).next.processor.registers.pc = (before 0xC9 0x00).popWord.1 ∧
      (before 0xED 0x45).next.SameStack (before 0xED 0x45).popWord.2 ∧
      (before 0xED 0x45).next.processor.registers.pc = (before 0xED 0x45).popWord.1 := by
  intro registers before m words pushed
  have hroom : words.length ≤ 32768 := by decide
  obtain ⟨⟨memory, hpushed⟩, hframe, hlies, hpopped, -⟩ := stack_discipline m words hroom
  obtain ⟨htop, -, -, hlow, hhigh⟩ := hlies [] 0x1234 [0xABCD] rfl
  have hfirst : (m.pushAll ([] ++ [0x1234])).processor.registers.sp = 0xFFFF := htop.trans (by decide)
  rw [hfirst] at hlow hhigh
  have hnext : (0xFFFF : UInt16) + 1 = 0 := by decide
  have hbytes : low 0x1234 = 0x34 ∧ high 0x1234 = 0x12 := by decide
  rw [hbytes.1] at hlow
  rw [hnext, hbytes.2] at hhigh
  have houtside : 1 ∉ below 1 (2 * words.length) := by decide
  have hready : ∀ first second, (before first second).processor.Ready := fun _ _ => ⟨rfl, rfl⟩
  have hread : ∀ first second, (before first second).read registers.pc = first ∧
      (before first second).read (registers.pc + 1) = second := by
    intro first second
    simp [before, registers, read, Registers.powerOn, Memory.read_write]
  have huse : ∀ first second, (before first second).stackUse = stackUseOf first second := by
    intro first second
    obtain ⟨hfirst, hsecond⟩ := hread first second
    exact congrArg₂ stackUseOf hfirst hsecond
  have hbehind : ∀ first second,
      (before first second).behind = UInt16.ofNat (encodedLength first second) := by
    intro first second
    obtain ⟨hfirst, hsecond⟩ := hread first second
    refine (UInt16.zero_add _).trans ?_
    exact congrArg UInt16.ofNat (congrArg₂ encodedLength hfirst hsecond)
  have hsteps := fun first second =>
    (stack_discipline (before first second) [] (by decide)).2.2.2.2.2 (hready first second)
  simp only [huse, hbehind] at hsteps
  obtain ⟨-, hpush, -⟩ := hsteps 0xDD 0xE5
  obtain ⟨-, hcall, -⟩ := hsteps 0xCD 0x10
  obtain ⟨-, -, hpop⟩ := hsteps 0xF1 0x00
  obtain ⟨-, -, hret⟩ := hsteps 0xC9 0x00
  obtain ⟨-, -, hretn⟩ := hsteps 0xED 0x45
  refine ⟨hroom, ?_, hlow, hhigh, hframe 1 houtside, hpopped pushed rfl fun a _ => rfl, hready,
    hpush _ rfl, hcall _ rfl, (hpop rfl).1, (hpop rfl).2, (hret rfl).1, (hret rfl).2, (hretn rfl).1,
    (hretn rfl).2⟩
  exact congrArg (fun m => m.processor.registers.sp) hpushed

end Machine

end Z80

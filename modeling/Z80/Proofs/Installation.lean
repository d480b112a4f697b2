import Z80.Proofs.Command
import Z80.Proofs.Stack
import Z80.Proofs.Word

/-!
# Installing blocks of bytes

A block is copied to memory in two parts, the one that fits below the end of the address space and the
one that goes on at address 0.  This file compares that with writing the bytes one by one, where the
address runs around by itself.

Both are told by what is found at an address afterwards, and that is the same: the distance of the
address from the start, counted around the end, is a place in the block or lies behind it
(`Memory.read_install`, `Memory.read_writeEach`).  A memory is determined by its bytes, so the two
memories are equal.  An image is a block as well, one that leaves nothing of what was there before.
-/

namespace Z80

/-- An address at or above the start is as far from it as the numbers are. -/
lemma toNat_sub_of_ge {a start : UInt16} (h : start.toNat ≤ a.toNat) :
    (a - start).toNat = a.toNat - start.toNat :=
  UInt16.toNat_sub_of_le a start (UInt16.le_iff_toNat_le.2 h)

/-- An address below the start is reached around the end of the address space. -/
lemma toNat_sub_of_lt {a start : UInt16} (h : a.toNat < start.toNat) :
    (a - start).toNat = addressSpace - start.toNat + a.toNat := by
  have := start.toNat_lt
  rw [UInt16.toNat_sub]
  show (65536 - start.toNat + a.toNat) % 65536 = 65536 - start.toNat + a.toNat
  omega

namespace Memory

variable (m : Memory) (start : UInt16) {block : List UInt8}

/-- After a block has been installed, every address holds the byte of the block that belongs there, and
the old byte if the block does not reach so far. -/
lemma read_install (h : block.length ≤ addressSpace) (a : UInt16) :
    (m.install start block h).read a = block[(a - start).toNat]?.getD (m.read a) := by
  have hstart : start.toNat < addressSpace := start.toNat_lt
  have ha : a.toNat < addressSpace := a.toNat_lt
  set first := min block.length (addressSpace - start.toNat) with hfirst
  have hinstall : (m.install start block h).read a =
      block[first + a.toNat]?.getD
        (if start.toNat ≤ a.toNat then (block.take first)[a.toNat - start.toNat]?.getD (m.read a)
          else m.read a) := by
    unfold install
    rw [read_copyIn, read_copyIn, if_pos (Nat.zero_le _), Nat.sub_zero, List.getElem?_drop]
  rw [hinstall]
  by_cases habove : start.toNat ≤ a.toNat
  · -- The second copy ends below the start.
    have hsecond : block[first + a.toNat]? = none := List.getElem?_eq_none (by omega)
    rw [hsecond, Option.getD_none, if_pos habove, toNat_sub_of_ge habove]
    by_cases hinside : a.toNat - start.toNat < first
    · rw [List.getElem?_take_of_lt hinside]
    · have hbehind : block[a.toNat - start.toNat]? = none := List.getElem?_eq_none (by omega)
      rw [hbehind, List.getElem?_take_eq_none (Nat.le_of_not_lt hinside)]
  · rw [if_neg habove, toNat_sub_of_lt (Nat.lt_of_not_le habove)]
    by_cases hfits : block.length ≤ addressSpace - start.toNat
    · have hsecond : block[first + a.toNat]? = none := List.getElem?_eq_none (by omega)
      have hbehind : block[addressSpace - start.toNat + a.toNat]? = none :=
        List.getElem?_eq_none (by omega)
      rw [hsecond, hbehind]
    · rw [hfirst, Nat.min_eq_right (Nat.le_of_not_le hfits)]

example : (zero.install 0xFFFE [1, 2, 3] (by decide)).read 0 = 3 := by
  rw [read_install]
  rfl

/-- Writing bytes one by one leaves the same bytes at the same addresses.  A block that is not longer
than the address space does not come around to its own first byte. -/
lemma read_writeEach (h : block.length ≤ addressSpace) (a : UInt16) :
    (m.writeEach start block).read a = block[(a - start).toNat]?.getD (m.read a) := by
  induction block generalizing m start with
  | nil => rfl
  | cons v rest ih =>
    have hrest : rest.length < addressSpace := h
    unfold writeEach
    rw [ih _ _ (Nat.le_of_lt hrest)]
    by_cases hfirst : a = start
    · have hlast : (start - (start + 1)).toNat = addressSpace - 1 := by
        rw [show start - (start + 1) = 65535 by grind]
        rfl
      have hnone : rest[(start - (start + 1)).toNat]? = none := List.getElem?_eq_none (by omega)
      rw [hfirst, hnone, Option.getD_none, read_write, if_pos rfl, UInt16.sub_self]
      rfl
    · have hnext : (a - start).toNat = (a - (start + 1)).toNat + 1 := by
        have hne : a - start ≠ 0 := by grind
        have hone : (a - start).toNat ≠ 0 := fun hzero => hne (UInt16.toNat_inj.1 hzero)
        have hsub : a - (start + 1) = a - start - UInt16.ofNat 1 := by grind
        rw [hsub, toNat_sub_ofNat (by omega)]
        omega
      rw [read_write_of_ne _ _ hfirst, hnext, List.getElem?_cons_succ]

/-- The two copies leave what writing the bytes one by one leaves. -/
lemma install_eq_writeEach (h : block.length ≤ addressSpace) :
    m.install start block h = m.writeEach start block := by
  ext a
  rw [read_install, read_writeEach m start h]

/-! ## What is refused -/

variable (block)

/-- Installing a block fails just if it is longer than the address space. -/
lemma writeBlock_eq_error (e : MemoryError) :
    m.writeBlock start block = .error e ↔
      addressSpace < block.length ∧ e = .blockTooLarge block.length := by
  unfold writeBlock
  by_cases hlong : addressSpace < block.length
  · rw [dif_pos hlong, Except.error.injEq]
    exact ⟨fun h => ⟨hlong, h.symm⟩, fun h => h.2.symm⟩
  · rw [dif_neg hlong]
    exact ⟨nofun, fun h => absurd h.1 hlong⟩

/-- Installing a block succeeds just if it is not longer than the address space, and leaves what writing
its bytes one by one leaves. -/
lemma writeBlock_eq_ok (m' : Memory) :
    m.writeBlock start block = .ok m' ↔
      block.length ≤ addressSpace ∧ m' = m.writeEach start block := by
  unfold writeBlock
  by_cases hlong : addressSpace < block.length
  · rw [dif_pos hlong]
    exact ⟨nofun, fun h => absurd hlong (Nat.not_lt.2 h.1)⟩
  · have hfits : block.length ≤ addressSpace := Nat.le_of_not_lt hlong
    rw [dif_neg hlong, install_eq_writeEach, Except.ok.injEq]
    exact ⟨fun h => ⟨hfits, h.symm⟩, fun h => h.2.symm⟩

/-- The bytes that are found afterwards determine the memory. -/
lemma eq_writeEach_iff (m' : Memory) (h : block.length ≤ addressSpace) :
    m' = m.writeEach start block ↔
      ∀ a, m'.read a = block[(a - start).toNat]?.getD (m.read a) := by
  constructor
  · rintro rfl a
    exact m.read_writeEach start h a
  · intro hread
    ext a
    rw [hread, m.read_writeEach start h]

/-- An image is refused just if it is too short or too long. -/
lemma ofImage_eq_error (image : List UInt8) (e : MemoryError) :
    ofImage image = .error e ↔
      image.length < addressSpace ∧ e = .imageTooSmall image.length ∨
        addressSpace < image.length ∧ e = .blockTooLarge image.length := by
  unfold ofImage
  rcases Nat.lt_trichotomy image.length addressSpace with hshort | hfull | hlong
  · rw [dif_neg (Nat.ne_of_lt hshort), if_pos hshort, Except.error.injEq]
    exact ⟨fun h => Or.inl ⟨hshort, h.symm⟩, fun h => (h.resolve_right (by omega)).2.symm⟩
  · rw [dif_pos hfull]
    exact ⟨nofun, fun h => by omega⟩
  · rw [dif_neg (Nat.ne_of_gt hlong), if_neg (Nat.not_lt_of_gt hlong), Except.error.injEq]
    exact ⟨fun h => Or.inr ⟨hlong, h.symm⟩, fun h => (h.resolve_left (by omega)).2.symm⟩

/-- A complete image gives the memory in which it has been installed as a block. -/
lemma ofImage_eq_ok (image : List UInt8) (m' : Memory) :
    ofImage image = .ok m' ↔
      image.length = addressSpace ∧ zero.writeBlock 0 image = .ok m' := by
  unfold ofImage
  by_cases hfull : image.length = addressSpace
  · have hwhole : ({ bytes := ⟨image.toArray⟩, size_eq := hfull } : Memory) =
        zero.writeEach 0 image := by
      rw [eq_writeEach_iff _ _ _ _ (Nat.le_of_eq hfull)]
      intro a
      have ha : a.toNat < image.length := by
        rw [hfull]
        exact a.toNat_lt
      rw [UInt16.sub_zero, List.getElem?_eq_getElem ha]
      rfl
    rw [dif_pos hfull, Except.ok.injEq, writeBlock_eq_ok, ← hwhole]
    exact ⟨fun h => ⟨hfull, Nat.le_of_eq hfull, h.symm⟩, fun h => h.2.2.symm⟩
  · rw [dif_neg hfull]
    constructor
    · intro h
      split at h <;> cases h
    · exact fun h => absurd h.1 hfull

end Memory

/-- Installing a block in a machine changes its memory or, if the block is refused, nothing. -/
lemma Machine.perform_writeBlock (m : Machine) (start : UInt16) (block : List UInt8) :
    m.perform (.writeBlock start block) =
      if addressSpace < block.length then m
      else { m with board := { m.board with memory := m.board.memory.writeEach start block } } := by
  by_cases hlong : addressSpace < block.length
  · have hrefused : m.writeBlock start block = .error (.blockTooLarge block.length) := by
      unfold writeBlock
      rw [(Memory.writeBlock_eq_error _ start block _).2 ⟨hlong, rfl⟩]
      rfl
    rw [perform, hrefused, if_pos hlong]
  · have hinstalled : m.writeBlock start block =
        .ok { m with board := { m.board with memory := m.board.memory.writeEach start block } } := by
      unfold writeBlock
      rw [(Memory.writeBlock_eq_ok _ start block _).2 ⟨Nat.le_of_not_lt hlong, rfl⟩]
      rfl
    rw [perform, hinstalled, if_neg hlong]

/-! ## The law -/

/-- **Blocks are installed whole or not at all.**  A block that is longer than the address space is refused
with its length, and the machine stays as it is.  Any other block is installed, wherever it starts, and
this changes the memory of the machine and nothing else: each address then holds the byte of the block
that belongs there, counted from the start around the end of the address space, and the old byte where
the block does not reach; that is what writing the bytes one by one leaves, and as many bytes as before.
An image is accepted just if it has the length of the address space, and gives the memory in which it
has been installed; one that is too short or too long is refused with its length. -/
theorem blocks_installed (machine : Machine) (start : UInt16) (block : List UInt8) :
    let m := machine.board.memory
    (∀ e, m.writeBlock start block = .error e ↔
      65536 < block.length ∧ e = .blockTooLarge block.length) ∧
    (∀ m', m.writeBlock start block = .ok m' ↔
      block.length ≤ 65536 ∧ ∀ a, m'.read a = block[(a - start).toNat]?.getD (m.read a)) ∧
    (∀ m', m.writeBlock start block = .ok m' →
      m' = m.writeEach start block ∧ m'.toList.length = 65536) ∧
    machine.perform (.writeBlock start block) =
      (if 65536 < block.length then machine
        else { machine with
          board := { machine.board with memory := m.writeEach start block } }) ∧
    (∀ e, Memory.ofImage block = .error e ↔
      block.length < 65536 ∧ e = .imageTooSmall block.length ∨
        65536 < block.length ∧ e = .blockTooLarge block.length) ∧
    (∀ m', Memory.ofImage block = .ok m' ↔
      block.length = 65536 ∧ Memory.zero.writeBlock 0 block = .ok m') := by
  intro m
  refine ⟨m.writeBlock_eq_error start block, fun m' => ?_, fun m' h => ⟨?_, m'.size_eq⟩,
    machine.perform_writeBlock start block, Memory.ofImage_eq_error block, Memory.ofImage_eq_ok block⟩
  · rw [m.writeBlock_eq_ok]
    exact and_congr_right (m.eq_writeEach_iff start block m')
  · exact ((m.writeBlock_eq_ok start block m').1 h).2

end Z80

import Z80.Memory.Basic

/-!
# Blocks of bytes

A block is installed from a start address upwards, around the end of the address space, in two
copies at most: what fits goes to the start address, and the rest to address 0. A block that is
longer than the address space is refused, and a memory image has to be exactly as long as the
address space.
-/

namespace Z80

/-- The reasons to refuse a block of bytes. -/
inductive MemoryError
  /-- A memory image of `size` bytes does not fill the address space. -/
  | imageTooSmall (size : Nat)
  /-- A block of `size` bytes is longer than the address space. -/
  | blockTooLarge (size : Nat)
  deriving DecidableEq

/-- The message for a refused block. -/
def MemoryError.message : MemoryError → String
  | .imageTooSmall size =>
    "address space image is " ++ toString size ++ " bytes; the Z80 needs 65536"
  | .blockTooLarge size =>
    "image of " ++ toString size ++ " bytes does not fit in the 65536-byte address space"

namespace Memory

/-- The memory after writing bytes one by one at `start` and the addresses that follow it. -/
def writeEach (m : Memory) (start : UInt16) : List UInt8 → Memory
  | [] => m
  | v :: rest => (m.write start v).writeEach (start + 1) rest

/-- A byte is found at the index that its address stands for. -/
theorem read_eq_getElem (m : Memory) {a : UInt16} (h : a.toNat < m.bytes.size) :
    m.read a = m.bytes[a.toNat] :=
  rfl

/-- A copied block stands between what is before it and what is behind it. -/
theorem copySlice_toByteArray (dest : ByteArray) (start : Nat) (block : List UInt8) :
    block.toByteArray.copySlice 0 dest start block.length =
      dest.extract 0 start ++
        (block.toByteArray ++ dest.extract (start + block.length) dest.size) := by
  have hblock : block.toByteArray.extract 0 block.length = block.toByteArray := by
    rw [← List.size_toByteArray, ByteArray.extract_zero_size]
  rw [ByteArray.copySlice_eq_append, Nat.zero_add, hblock, ByteArray.size_data,
    List.size_toByteArray, Nat.sub_zero, Nat.min_self, ByteArray.size_data,
    ByteArray.append_assoc]

/-- Copies a block to the addresses from `start` on; it has to end within the address space. -/
def copyIn (m : Memory) (start : Nat) (block : List UInt8)
    (h : start + block.length ≤ addressSpace) : Memory where
  bytes := block.toByteArray.copySlice 0 m.bytes start block.length
  size_eq := by
    have hsize : m.bytes.size = addressSpace := m.size_eq
    rw [copySlice_toByteArray, ByteArray.size_append, ByteArray.size_append, ByteArray.size_extract,
      ByteArray.size_extract, List.size_toByteArray]
    omega

/-- A copied block is read back, and all other bytes stay. -/
theorem read_copyIn (m : Memory) {start : Nat} {block : List UInt8}
    (h : start + block.length ≤ addressSpace) (a : UInt16) :
    (m.copyIn start block h).read a =
      if start ≤ a.toNat then block[a.toNat - start]?.getD (m.read a) else m.read a := by
  have hsize : m.bytes.size = addressSpace := m.size_eq
  have hlt : a.toNat < addressSpace := a.toNat_lt
  have hstart : (m.bytes.extract 0 start).size = start := by
    rw [ByteArray.size_extract]
    omega
  have hblock : block.toByteArray.size = block.length := List.size_toByteArray
  rw [read_eq_getElem _ (toNat_lt_size _ a), read_eq_getElem _ (m.toNat_lt_size a)]
  simp only [copyIn, copySlice_toByteArray]
  by_cases hbefore : start ≤ a.toNat
  · rw [if_pos hbefore, ByteArray.getElem_append_right (by omega)]
    simp only [hstart]
    by_cases hinside : a.toNat - start < block.length
    · rw [ByteArray.getElem_append_left (by omega), List.getElem_toByteArray,
        List.getElem?_eq_getElem hinside, Option.getD_some]
    · rw [ByteArray.getElem_append_right (by omega), ByteArray.getElem_extract,
        List.getElem?_eq_none (Nat.le_of_not_lt hinside), Option.getD_none]
      congr 1
      omega
  · rw [if_neg hbefore, ByteArray.getElem_append_left (by omega), ByteArray.getElem_extract]
    simp only [Nat.zero_add]

/-- The memory with a block installed at `start`: the bytes that fit below the end of the address
space are copied to `start`, and the rest to address 0. -/
def install (m : Memory) (start : UInt16) (block : List UInt8)
    (h : block.length ≤ addressSpace) : Memory :=
  let first := min block.length (addressSpace - start.toNat)
  have hfirst : start.toNat + (block.take first).length ≤ addressSpace := by
    have : start.toNat < addressSpace := start.toNat_lt
    rw [List.length_take]
    omega
  have hrest : 0 + (block.drop first).length ≤ addressSpace := by
    rw [List.length_drop]
    omega
  (m.copyIn start.toNat (block.take first) hfirst).copyIn 0 (block.drop first) hrest

/-- Installs a block of bytes at `start`. -/
def writeBlock (m : Memory) (start : UInt16) (block : List UInt8) : Except MemoryError Memory :=
  if h : addressSpace < block.length then .error (.blockTooLarge block.length)
  else .ok (m.install start block (Nat.le_of_not_lt h))

/-- The memory that holds a complete image. -/
def ofImage (image : List UInt8) : Except MemoryError Memory :=
  if h : image.length = addressSpace then
    .ok { bytes := ⟨image.toArray⟩, size_eq := h }
  else if image.length < addressSpace then .error (.imageTooSmall image.length)
  else .error (.blockTooLarge image.length)

/-- The `n` bytes from `start` up, if they all lie below the end of the address space. -/
def slice? (m : Memory) (start n : Nat) : Option (List UInt8) :=
  if start + n ≤ addressSpace then some ((m.toList.drop start).take n) else none

/-- The `n` bytes from an address upwards, around the end of the address space. -/
def dump (m : Memory) (start : UInt16) (n : Nat) : List UInt8 :=
  (List.range n).map fun i => m.read (start + UInt16.ofNat i)

end Memory

/-- The first `n` bytes of a pattern that is repeated without end. -/
def tile (pattern : List UInt8) (n : Nat) : List UInt8 :=
  let block := pattern.toArray
  (List.range n).map fun i => block.getD (i % block.size) 0

end Z80

import Z80.Word

/-!
# The address space

Memory is one flat block of 65536 bytes of plain RAM, so that every word is an address and
nothing can fault. The view of a memory is the function `read`; the lemmas `read_write` and
`ext` say what a write does to it and that nothing else can be told about a memory.
-/

namespace Z80

/-- The number of bytes in the address space. -/
def addressSpace : Nat :=
  65536

/-- A memory: one byte for each address. -/
structure Memory where
  /-- The bytes from address 0 up. -/
  bytes : ByteArray
  /-- There is a byte for every address. -/
  size_eq : bytes.size = addressSpace

namespace Memory

/-- Every address lies inside the block. -/
theorem toNat_lt_size (m : Memory) (a : UInt16) : a.toNat < m.bytes.size := by
  rw [m.size_eq]
  exact a.toNat_lt

/-- The byte at an address. -/
def read (m : Memory) (a : UInt16) : UInt8 :=
  m.bytes.get a.toNat (m.toNat_lt_size a)

/-- The memory with one byte replaced. -/
def write (m : Memory) (a : UInt16) (v : UInt8) : Memory where
  bytes := m.bytes.set a.toNat v (m.toNat_lt_size a)
  size_eq := (Array.size_set _).trans m.size_eq

/-- The little-endian word at an address; its high byte is at the next address, around the end
of the address space. -/
def readWord (m : Memory) (a : UInt16) : UInt16 :=
  word (m.read (a + 1)) (m.read a)

/-- A byte that is written is read back, and all other bytes stay. -/
theorem read_write (m : Memory) (a b : UInt16) (v : UInt8) :
    (m.write a v).read b = if b = a then v else m.read b := by
  have hb : b.toNat < (m.bytes.data.set a.toNat v (m.toNat_lt_size a)).size :=
    (m.write a v).toNat_lt_size b
  have hset : (m.write a v).read b = if a.toNat = b.toNat then v else m.read b :=
    Array.getElem_set (m.toNat_lt_size a) hb
  rw [hset]
  by_cases h : b = a
  · rw [if_pos h, if_pos (congrArg UInt16.toNat h.symm)]
  · rw [if_neg h, if_neg fun e => h (UInt16.toNat_inj.1 e.symm)]

/-- Two memories with the same byte at each address are equal. -/
@[ext] theorem ext {m k : Memory} (h : ∀ a, m.read a = k.read a) : m = k := by
  obtain ⟨⟨x⟩, hx⟩ := m
  obtain ⟨⟨y⟩, hy⟩ := k
  simp only [mk.injEq, ByteArray.mk.injEq]
  have hx' : x.size = 65536 := hx
  have hy' : y.size = 65536 := hy
  apply Array.ext (by omega)
  intro i hi _
  have e : (UInt16.ofNat i).toNat = i := by simp; omega
  have hxi : (UInt16.ofNat i).toNat < x.size := by omega
  have hyi : (UInt16.ofNat i).toNat < y.size := by omega
  have key : x[(UInt16.ofNat i).toNat] = y[(UInt16.ofNat i).toNat] := h (UInt16.ofNat i)
  simpa only [e] using key

/-- The memory with every byte clear. -/
def zero : Memory where
  bytes := ⟨Array.replicate addressSpace 0⟩
  size_eq := by simp [ByteArray.size]

/-- All bytes, from address 0 up. -/
def toList (m : Memory) : List UInt8 :=
  m.bytes.data.toList

end Memory

end Z80

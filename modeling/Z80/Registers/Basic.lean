import Z80.Flags

/-!
# The register file

The accumulator, the flags and six general registers exist twice: the main bank takes part in
instructions, the shadow bank can only be exchanged with it. Beside them stand the index
registers, the stack pointer, the program counter, the interrupt page and refresh registers, an
internal address latch, and the state of the interrupt system and of the halt line.
-/

namespace Z80

/-- One bank of accumulator, flags and general registers. -/
structure Bank where
  /-- Accumulator. -/
  a : UInt8
  /-- Flags. -/
  f : Flags
  /-- High byte of BC. -/
  b : UInt8
  /-- Low byte of BC. -/
  c : UInt8
  /-- High byte of DE. -/
  d : UInt8
  /-- Low byte of DE. -/
  e : UInt8
  /-- High byte of HL. -/
  h : UInt8
  /-- Low byte of HL. -/
  l : UInt8
  deriving DecidableEq

namespace Bank

/-- The pair of accumulator and flags. -/
def af (k : Bank) : UInt16 :=
  word k.a k.f.toByte

/-- The pair of B and C. -/
def bc (k : Bank) : UInt16 :=
  word k.b k.c

/-- The pair of D and E. -/
def de (k : Bank) : UInt16 :=
  word k.d k.e

/-- The pair of H and L. -/
def hl (k : Bank) : UInt16 :=
  word k.h k.l

/-- The bank with all bytes and flags clear. -/
def clear : Bank where
  a := 0
  f := Flags.ofByte 0
  b := 0
  c := 0
  d := 0
  e := 0
  h := 0
  l := 0

end Bank

/-- The whole register file. -/
structure Registers extends Bank where
  /-- The shadow bank. -/
  shadow : Bank
  /-- First index register. -/
  ix : UInt16
  /-- Second index register. -/
  iy : UInt16
  /-- Stack pointer. -/
  sp : UInt16
  /-- Program counter. -/
  pc : UInt16
  /-- Page of the interrupt vectors. -/
  i : UInt8
  /-- Refresh counter. -/
  r : UInt8
  /-- The internal address latch, visible through the bit copies of some bit tests. -/
  wz : UInt16
  /-- Whether maskable interrupts are let in. -/
  iff1 : Bool
  /-- The copy of `iff1` that is put back at the end of a non-maskable interrupt. -/
  iff2 : Bool
  /-- Interrupt mode; every mode above 1 acts as mode 2. -/
  im : UInt8
  /-- Whether the processor waits for an interrupt. -/
  halted : Bool
  deriving DecidableEq

namespace Registers

/-- The registers after power-on: all clear except AF and SP, whose bits are all set. -/
def powerOn : Registers where
  toBank := { Bank.clear with a := 0xFF, f := Flags.ofByte 0xFF }
  shadow := Bank.clear
  ix := 0
  iy := 0
  sp := 0xFFFF
  pc := 0
  i := 0
  r := 0
  wz := 0
  iff1 := false
  iff2 := false
  im := 0
  halted := false

/-- The interrupt page as high byte and the refresh counter as low byte. -/
def ir (k : Registers) : UInt16 :=
  word k.i k.r

/-- Writes the pair of accumulator and flags. -/
def setAF (k : Registers) (v : UInt16) : Registers :=
  { k with a := high v, f := Flags.ofByte (low v) }

/-- Writes the pair of B and C. -/
def setBC (k : Registers) (v : UInt16) : Registers :=
  { k with b := high v, c := low v }

/-- Writes the pair of D and E. -/
def setDE (k : Registers) (v : UInt16) : Registers :=
  { k with d := high v, e := low v }

/-- Writes the pair of H and L. -/
def setHL (k : Registers) (v : UInt16) : Registers :=
  { k with h := high v, l := low v }

/-- Exchanges AF with the shadow AF. -/
def exchangeAF (k : Registers) : Registers :=
  { k with
    a := k.shadow.a
    f := k.shadow.f
    shadow := { k.shadow with a := k.a, f := k.f } }

/-- Exchanges BC, DE and HL with their shadows. -/
def exchangeMain (k : Registers) : Registers :=
  { k with
    toBank := { k.shadow with a := k.a, f := k.f }
    shadow := { k.toBank with a := k.shadow.a, f := k.shadow.f } }

/-- Exchanges DE with HL. -/
def exchangeDEHL (k : Registers) : Registers :=
  { k with d := k.h, e := k.l, h := k.d, l := k.e }

/-- Counts `fetches` opcode fetches in the low seven bits of the refresh counter; the top bit
stays as the program set it. -/
def advanceRefresh (k : Registers) (fetches : UInt8) : Registers :=
  { k with r := k.r / 128 * 128 + (k.r + fetches) % 128 }

/-- Fetches are counted in two parts or all at once. -/
theorem advanceRefresh_advanceRefresh (k : Registers) (m n : UInt8) :
    (k.advanceRefresh m).advanceRefresh n = k.advanceRefresh (m + n) := by
  have hcount : (k.r / 128 * 128 + (k.r + m) % 128) / 128 * 128 +
      (k.r / 128 * 128 + (k.r + m) % 128 + n) % 128 =
      k.r / 128 * 128 + (k.r + (m + n)) % 128 := by
    apply UInt8.toNat_inj.1
    simp only [UInt8.toNat_add, UInt8.toNat_mul, UInt8.toNat_div, UInt8.toNat_mod,
      UInt8.reduceToNat]
    have := k.r.toNat_lt
    omega
  exact congrArg (fun r => { k with r }) hcount

/-- Exchanging AF twice changes nothing. -/
@[simp] theorem exchangeAF_exchangeAF (k : Registers) : k.exchangeAF.exchangeAF = k := rfl

/-- Exchanging the main pairs twice changes nothing. -/
@[simp] theorem exchangeMain_exchangeMain (k : Registers) :
    k.exchangeMain.exchangeMain = k := rfl

end Registers

end Z80

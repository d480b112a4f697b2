import Z80.Registers.Basic

/-!
# Registers by name

A selector names a register, a pair or a part of the interrupt state. Every selector reads as a
word: bytes and flags are widened. Writing takes the low byte where the register is a byte, any
number but zero as a set flip-flop, and at most 2 as interrupt mode.
-/

namespace Z80

/-- The names under which registers are read and written. -/
inductive Selector
  /-- Accumulator. -/
  | a
  /-- Flags. -/
  | f
  /-- B. -/
  | b
  /-- C. -/
  | c
  /-- D. -/
  | d
  /-- E. -/
  | e
  /-- H. -/
  | h
  /-- L. -/
  | l
  /-- Accumulator and flags. -/
  | af
  /-- B and C. -/
  | bc
  /-- D and E. -/
  | de
  /-- H and L. -/
  | hl
  /-- Shadow accumulator and flags. -/
  | shadowAF
  /-- Shadow B and C. -/
  | shadowBC
  /-- Shadow D and E. -/
  | shadowDE
  /-- Shadow H and L. -/
  | shadowHL
  /-- First index register. -/
  | ix
  /-- Second index register. -/
  | iy
  /-- Stack pointer. -/
  | sp
  /-- Program counter. -/
  | pc
  /-- Interrupt page. -/
  | i
  /-- Refresh counter. -/
  | r
  /-- Interrupt page and refresh counter. -/
  | ir
  /-- Internal address latch. -/
  | wz
  /-- Interrupt enable. -/
  | iff1
  /-- Saved interrupt enable. -/
  | iff2
  /-- Interrupt mode. -/
  | im
  deriving DecidableEq

namespace Selector

/-- All selectors, in the order in which they are listed. -/
def all : List Selector :=
  [.a, .f, .b, .c, .d, .e, .h, .l, .af, .bc, .de, .hl, .shadowAF, .shadowBC, .shadowDE,
    .shadowHL, .ix, .iy, .sp, .pc, .i, .r, .ir, .wz, .iff1, .iff2, .im]

/-- The name of a selector. -/
def name : Selector → String
  | .a => "A"
  | .f => "F"
  | .b => "B"
  | .c => "C"
  | .d => "D"
  | .e => "E"
  | .h => "H"
  | .l => "L"
  | .af => "AF"
  | .bc => "BC"
  | .de => "DE"
  | .hl => "HL"
  | .shadowAF => "AFAlt"
  | .shadowBC => "BCAlt"
  | .shadowDE => "DEAlt"
  | .shadowHL => "HLAlt"
  | .ix => "IX"
  | .iy => "IY"
  | .sp => "SP"
  | .pc => "PC"
  | .i => "I"
  | .r => "R"
  | .ir => "IR"
  | .wz => "MemPtr"
  | .iff1 => "IFF1"
  | .iff2 => "IFF2"
  | .im => "IM"

/-- The selector with the given name. -/
def ofName? (s : String) : Option Selector :=
  all.find? fun k => k.name == s

end Selector

namespace Registers

/-- The word that a selector reads. -/
def get (k : Registers) : Selector → UInt16
  | .a => k.a.toUInt16
  | .f => k.f.toByte.toUInt16
  | .b => k.b.toUInt16
  | .c => k.c.toUInt16
  | .d => k.d.toUInt16
  | .e => k.e.toUInt16
  | .h => k.h.toUInt16
  | .l => k.l.toUInt16
  | .af => k.af
  | .bc => k.bc
  | .de => k.de
  | .hl => k.hl
  | .shadowAF => k.shadow.af
  | .shadowBC => k.shadow.bc
  | .shadowDE => k.shadow.de
  | .shadowHL => k.shadow.hl
  | .ix => k.ix
  | .iy => k.iy
  | .sp => k.sp
  | .pc => k.pc
  | .i => k.i.toUInt16
  | .r => k.r.toUInt16
  | .ir => k.ir
  | .wz => k.wz
  | .iff1 => k.iff1.toUInt16
  | .iff2 => k.iff2.toUInt16
  | .im => k.im.toUInt16

/-- The registers after a selector has been written. -/
def set (k : Registers) (s : Selector) (v : UInt16) : Registers :=
  match s with
  | .a => { k with a := low v }
  | .f => { k with f := Flags.ofByte (low v) }
  | .b => { k with b := low v }
  | .c => { k with c := low v }
  | .d => { k with d := low v }
  | .e => { k with e := low v }
  | .h => { k with h := low v }
  | .l => { k with l := low v }
  | .af => k.setAF v
  | .bc => k.setBC v
  | .de => k.setDE v
  | .hl => k.setHL v
  | .shadowAF => { k with shadow := { k.shadow with a := high v, f := Flags.ofByte (low v) } }
  | .shadowBC => { k with shadow := { k.shadow with b := high v, c := low v } }
  | .shadowDE => { k with shadow := { k.shadow with d := high v, e := low v } }
  | .shadowHL => { k with shadow := { k.shadow with h := high v, l := low v } }
  | .ix => { k with ix := v }
  | .iy => { k with iy := v }
  | .sp => { k with sp := v }
  | .pc => { k with pc := v }
  | .i => { k with i := low v }
  | .r => { k with r := low v }
  | .ir => { k with i := high v, r := low v }
  | .wz => { k with wz := v }
  | .iff1 => { k with iff1 := v != 0 }
  | .iff2 => { k with iff2 := v != 0 }
  | .im => { k with im := min (low v) 2 }

end Registers

end Z80

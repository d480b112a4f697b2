import Z80.Processor.Basic
import Z80.Processor.Value

/-!
# Queries

Every part of a processor's state has a path under which it can be asked for. The paths are listed in one
table, for those who want to know what there is to ask, and answered in another.
-/

namespace Z80.Processor

/-- A flag of the processor. -/
def flag (p : Processor) (k : Flag) : Value :=
  .bool (p.registers.f.get k)

/-- The paths that have an answer, in the order in which they are listed. -/
def queryPaths : List String :=
  -- registers of the main bank
  ["a", "f", "b", "c", "d", "e", "h", "l",
    -- pairs of the main bank, then of the shadow bank
    "af", "bc", "de", "hl",
    "af'", "bc'", "de'", "hl'",
    -- index registers and their halves
    "ix", "iy", "ixh", "ixl", "iyh", "iyl",
    -- other registers
    "sp", "pc", "i", "r", "ir",
    -- the internal latch, under both of its names
    "wz", "memptr",
    -- flags
    "flags.s", "flags.z", "flags.y", "flags.h",
    "flags.x", "flags.p", "flags.n", "flags.c",
    -- the interrupt system
    "iff1", "iff2", "im", "int_pending", "nmi_pending",
    -- the halt line and the time
    "halted", "ticks"]

/-- The answer for a path, if there is one. -/
def query (p : Processor) (path : String) : Option Value :=
  match path with
  | "a" => some (.byte p.registers.a)
  | "f" => some (.byte p.registers.f.toByte)
  | "b" => some (.byte p.registers.b)
  | "c" => some (.byte p.registers.c)
  | "d" => some (.byte p.registers.d)
  | "e" => some (.byte p.registers.e)
  | "h" => some (.byte p.registers.h)
  | "l" => some (.byte p.registers.l)
  | "af" => some (.word p.registers.af)
  | "bc" => some (.word p.registers.bc)
  | "de" => some (.word p.registers.de)
  | "hl" => some (.word p.registers.hl)
  | "af'" => some (.word (p.registers.get .shadowAF))
  | "bc'" => some (.word (p.registers.get .shadowBC))
  | "de'" => some (.word (p.registers.get .shadowDE))
  | "hl'" => some (.word (p.registers.get .shadowHL))
  | "ix" => some (.word p.registers.ix)
  | "iy" => some (.word p.registers.iy)
  | "ixh" => some (.byte (high p.registers.ix))
  | "ixl" => some (.byte (low p.registers.ix))
  | "iyh" => some (.byte (high p.registers.iy))
  | "iyl" => some (.byte (low p.registers.iy))
  | "sp" => some (.word p.registers.sp)
  | "pc" => some (.word p.registers.pc)
  | "i" => some (.byte p.registers.i)
  | "r" => some (.byte p.registers.r)
  | "ir" => some (.word p.registers.ir)
  | "wz" | "memptr" => some (.word p.registers.wz)
  | "flags.s" => some (p.flag .s)
  | "flags.z" => some (p.flag .z)
  | "flags.y" => some (p.flag .y)
  | "flags.h" => some (p.flag .h)
  | "flags.x" => some (p.flag .x)
  | "flags.p" => some (p.flag .p)
  | "flags.n" => some (p.flag .n)
  | "flags.c" => some (p.flag .c)
  | "iff1" => some (.bool p.registers.iff1)
  | "iff2" => some (.bool p.registers.iff2)
  | "im" => some (.byte p.registers.im)
  | "int_pending" => some (.bool p.interrupts.request.isSome)
  | "nmi_pending" => some (.bool p.interrupts.nmi)
  | "halted" => some (.bool p.registers.halted)
  | "ticks" => some (.count p.ticks)
  | _ => none

/-- Every path with its answer. -/
def queryListing (p : Processor) : List String :=
  queryPaths.filterMap fun path => (p.query path).map fun answer => path ++ "=" ++ answer.display

end Z80.Processor

import Z80.Config
import Z80.Registers.Basic
import Z80.Snapshot.Codec

/-!
# Snapshots

A register file or a configuration is written as a record and read back, with any codec. Reading
wants every field, each with a value that the codec reads as one of its type; what else a record has
is not looked at. Unlike a write by name, reading takes any byte as interrupt mode.
-/

namespace Z80

namespace Bank

/-- The names of the fields of a bank, without the suffix of the bank. -/
def fieldNames : List String :=
  ["a", "f", "b", "c", "d", "e", "h", "l"]

/-- The values of the fields of a bank, in the same order. -/
def fieldValues (codec : Codec) (k : Bank) : List Json :=
  [k.a, k.f.toByte, k.b, k.c, k.d, k.e, k.h, k.l].map codec.ofByte

/-- Reads the bank whose fields have names with the given suffix. -/
def ofRecord? (codec : Codec) (record : String → Option Json) (suffix : String) : Option Bank := do
  let a ← codec.byteField? record ("a" ++ suffix)
  let f ← codec.byteField? record ("f" ++ suffix)
  let b ← codec.byteField? record ("b" ++ suffix)
  let c ← codec.byteField? record ("c" ++ suffix)
  let d ← codec.byteField? record ("d" ++ suffix)
  let e ← codec.byteField? record ("e" ++ suffix)
  let h ← codec.byteField? record ("h" ++ suffix)
  let l ← codec.byteField? record ("l" ++ suffix)
  return { a, f := Flags.ofByte f, b, c, d, e, h, l }

end Bank

namespace Registers

/-- The names of the fields of a register file, in order. -/
def fieldNames : List String :=
  Bank.fieldNames ++ (Bank.fieldNames.map (· ++ "_alt") ++
    ["ix", "iy", "sp", "pc", "i", "r", "wz", "iff1", "iff2", "im", "halted"])

/-- The values of the fields of a register file, in the same order. -/
def fieldValues (codec : Codec) (k : Registers) : List Json :=
  k.toBank.fieldValues codec ++ (k.shadow.fieldValues codec ++
    [codec.ofWord k.ix,
      codec.ofWord k.iy,
      codec.ofWord k.sp,
      codec.ofWord k.pc,
      codec.ofByte k.i,
      codec.ofByte k.r,
      codec.ofWord k.wz,
      codec.ofBool k.iff1,
      codec.ofBool k.iff2,
      codec.ofByte k.im,
      codec.ofBool k.halted])

/-- Writes a register file. -/
def encode (codec : Codec) (k : Registers) : Json :=
  codec.ofRecord (fieldNames.zip (k.fieldValues codec))

/-- Reads a register file from its fields. -/
def ofRecord? (codec : Codec) (record : String → Option Json) : Option Registers := do
  let main ← Bank.ofRecord? codec record ""
  let shadow ← Bank.ofRecord? codec record "_alt"
  let ix ← codec.wordField? record "ix"
  let iy ← codec.wordField? record "iy"
  let sp ← codec.wordField? record "sp"
  let pc ← codec.wordField? record "pc"
  let i ← codec.byteField? record "i"
  let r ← codec.byteField? record "r"
  let wz ← codec.wordField? record "wz"
  let iff1 ← codec.boolField? record "iff1"
  let iff2 ← codec.boolField? record "iff2"
  let im ← codec.byteField? record "im"
  let halted ← codec.boolField? record "halted"
  return { main with shadow, ix, iy, sp, pc, i, r, wz, iff1, iff2, im, halted }

/-- Reads a register file. -/
def decode? (codec : Codec) (j : Json) : Option Registers :=
  (codec.toRecord? fieldNames j).bind (ofRecord? codec)

/-- The JSON value for a register file. -/
def toJson (k : Registers) : Json :=
  k.encode .json

/-- Reads a register file from a JSON value. -/
def ofJson? (j : Json) : Option Registers :=
  decode? .json j

end Registers

/-- The names of the revisions. -/
def Revision.names : List String :=
  [name .nmos, name .bm1]

namespace Config

/-- The names of the fields of a configuration, in order. -/
def fieldNames : List String :=
  ["revision", "interrupt_data_bus"]

/-- The values of the fields of a configuration, in the same order. -/
def fieldValues (codec : Codec) (k : Config) : List Json :=
  [codec.ofVariant k.revision.name, codec.ofByte k.interruptByte]

/-- Writes a configuration. -/
def encode (codec : Codec) (k : Config) : Json :=
  codec.ofRecord (fieldNames.zip (k.fieldValues codec))

/-- Reads a configuration from its fields. -/
def ofRecord? (codec : Codec) (record : String → Option Json) : Option Config := do
  let name ← (record "revision").bind (codec.toVariant? Revision.names)
  let revision ← Revision.ofName? name
  let interruptByte ← codec.byteField? record "interrupt_data_bus"
  return { revision, interruptByte }

/-- Reads a configuration. -/
def decode? (codec : Codec) (j : Json) : Option Config :=
  (codec.toRecord? fieldNames j).bind (ofRecord? codec)

/-- The JSON value for a configuration. -/
def toJson (k : Config) : Json :=
  k.encode .json

/-- Reads a configuration from a JSON value. -/
def ofJson? (j : Json) : Option Config :=
  decode? .json j

end Config

end Z80

import Z80.Snapshot.Json

/-!
# Codecs

How the parts of a snapshot are written as JSON values and read back is up to a serialization
library: single values, the variants of an enumeration, and records with their names. A codec is
what such a library supplies. Which parts a register file or a configuration has is not its
business.
-/

namespace Z80

/-- What a serialization library supplies. -/
structure Codec where
  /-- Writes a byte. -/
  ofByte : UInt8 → Json
  /-- Writes a word. -/
  ofWord : UInt16 → Json
  /-- Writes a truth value. -/
  ofBool : Bool → Json
  /-- Writes a variant, by its name. -/
  ofVariant : String → Json
  /-- Writes a record, from its fields with their names. -/
  ofRecord : List (String × Json) → Json
  /-- Reads a byte. -/
  toByte? : Json → Option UInt8
  /-- Reads a word. -/
  toWord? : Json → Option UInt16
  /-- Reads a truth value. -/
  toBool? : Json → Option Bool
  /-- Reads one of the variants with the given names. -/
  toVariant? : List String → Json → Option String
  /-- Reads a record with fields of the given names, as what it has under each name. -/
  toRecord? : List String → Json → Option (String → Option Json)

namespace Codec

/-- The codec that writes single values as themselves, variants as strings and records as objects,
and reads what the readers of JSON values read. -/
def json : Codec where
  ofByte v := .ofNat v.toNat
  ofWord w := .ofNat w.toNat
  ofBool := .bool
  ofVariant := .string
  ofRecord := .object
  toByte? := Json.toByte?
  toWord? := Json.toWord?
  toBool? := Json.toBool?
  toVariant? names j := j.toName?.filter fun name => names.contains name
  toRecord? := Json.toRecord?

variable (codec : Codec) (record : String → Option Json) (name : String)

/-- A field that is a byte. -/
def byteField? : Option UInt8 :=
  (record name).bind codec.toByte?

/-- A field that is a word. -/
def wordField? : Option UInt16 :=
  (record name).bind codec.toWord?

/-- A field that is a truth value. -/
def boolField? : Option Bool :=
  (record name).bind codec.toBool?

end Codec

end Z80

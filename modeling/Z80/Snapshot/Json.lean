/-!
# JSON values

The values that snapshots are written as, and how values of the processor are read from them. A
number that is written with a fraction or an exponent is a float, whatever its value, and so is the
negative zero; the other numbers are integers. Integers have no decimal places and floats at least
one, so 100 is `number 100 0` while 1e2 is `number 1000 1`.
-/

namespace Z80

/-- A JSON value. -/
inductive Json
  /-- The null value. -/
  | null
  /-- A truth value. -/
  | bool (b : Bool)
  /-- The number `mantissa / 10 ^ places`: an integer if `places = 0`, and a float otherwise. -/
  | number (mantissa : Int) (places : Nat)
  /-- A string. -/
  | string (s : String)
  /-- A list. -/
  | list (items : List Json)
  /-- An object: fields with their names. -/
  | object (fields : List (String × Json))
  deriving Inhabited

namespace Json

/-- A natural number as a value. -/
def ofNat (n : Nat) : Json :=
  .number n 0

/-- The float `mantissa / 10 ^ places`, with one more place so that it is a float even if its value
is integral. -/
def ofFloat (mantissa : Int) (places : Nat) : Json :=
  .number (10 * mantissa) (places + 1)

/-- The natural number that a value is. -/
def toNat? : Json → Option Nat
  | .number (.ofNat n) 0 => some n
  | _ => none

/-- The byte that a value is. -/
def toByte? (j : Json) : Option UInt8 :=
  match j.toNat? with
  | some n => if n < 256 then some (UInt8.ofNat n) else none
  | none => none

/-- The word that a value is. -/
def toWord? (j : Json) : Option UInt16 :=
  match j.toNat? with
  | some n => if n < 65536 then some (UInt16.ofNat n) else none
  | none => none

/-- The truth value that a value is. -/
def toBool? : Json → Option Bool
  | .bool b => some b
  | _ => none

/-- The name that a value stands for: a string, or an object whose only field has that name and
holds nothing. -/
def toName? : Json → Option String
  | .string s => some s
  | .object [(s, .null)] => some s
  | _ => none

/-- The record that a value stands for, as what it has under each name. Its fields are given by
name, or as a bare list of their values, one for each of `names` and in that order. -/
def toRecord? (names : List String) : Json → Option (String → Option Json)
  | .object fields => some fun name => fields.lookup name
  | .list items =>
    if items.length = names.length then some fun name => (names.zip items).lookup name else none
  | _ => none

/-- A natural number that is written is read back. -/
@[simp] theorem toNat?_ofNat (n : Nat) : (ofNat n).toNat? = some n := rfl

/-- No float is read as a natural number. -/
@[simp] theorem toNat?_ofFloat (mantissa : Int) (places : Nat) :
    (ofFloat mantissa places).toNat? = none := by
  simp [ofFloat, toNat?]

/-- A byte that is written is read back. -/
@[simp] theorem toByte?_ofNat (v : UInt8) : (ofNat v.toNat).toByte? = some v := by
  have h : v.toNat < 256 := v.toNat_lt
  simp [toByte?, h]

/-- A word that is written is read back. -/
@[simp] theorem toWord?_ofNat (w : UInt16) : (ofNat w.toNat).toWord? = some w := by
  have h : w.toNat < 65536 := w.toNat_lt
  simp [toWord?, h]

end Json

end Z80

/-!
# Hexadecimal text

Numbers are written with upper-case digits in a fixed number of places, the most significant
digit first. Blocks of bytes are written two digits a byte without separators.
-/

namespace Z80.Hex

/-- The digit for a number below 16. -/
def digit (n : Nat) : Char :=
  if n < 10 then Char.ofNat (48 + n) else Char.ofNat (55 + n)

/-- The number that a digit stands for; lower-case letters are not digits. -/
def value? (c : Char) : Option Nat :=
  if '0' ≤ c ∧ c ≤ '9' then some (c.toNat - 48)
  else if 'A' ≤ c ∧ c ≤ 'F' then some (c.toNat - 55)
  else none

/-- The last `width` hexadecimal digits of `n`. -/
def digits : (width : Nat) → (n : Nat) → List Char
  | 0, _ => []
  | width + 1, n => digits width (n / 16) ++ [digit (n % 16)]

/-- A bit as one digit. -/
def bit (b : Bool) : String :=
  if b then "1" else "0"

/-- A byte as two digits. -/
def byte (v : UInt8) : String :=
  String.ofList (digits 2 v.toNat)

/-- A word as four digits. -/
def word (w : UInt16) : String :=
  String.ofList (digits 4 w.toNat)

/-- A 64-bit number as sixteen digits. -/
def long (n : UInt64) : String :=
  String.ofList (digits 16 n.toNat)

/-- A block of bytes, two digits a byte. -/
def bytes (block : List UInt8) : String :=
  String.ofList (block.flatMap fun v => digits 2 v.toNat)

/-- The bytes that a row of digit pairs stands for. -/
def ofDigits? : List Char → Option (List UInt8)
  | [] => some []
  | hi :: lo :: rest => do
    let hi ← value? hi
    let lo ← value? lo
    let block ← ofDigits? rest
    return UInt8.ofNat (hi * 16 + lo) :: block
  | [_] => none

/-- Reads a block of bytes written two digits a byte. -/
def ofString? (s : String) : Option (List UInt8) :=
  ofDigits? s.toList

/-- A digit is read back as its number. -/
theorem value?_digit : ∀ n < 16, value? (digit n) = some n := by
  decide

/-- A byte is made of the numbers that its two digits stand for. -/
theorem ofNat_halves (v : UInt8) :
    UInt8.ofNat (v.toNat / 16 % 16 * 16 + v.toNat % 16) = v := by
  have h : v.toNat / 16 % 16 * 16 + v.toNat % 16 = v.toNat := by
    have := v.toNat_lt
    omega
  rw [h, UInt8.ofNat_toNat]

/-- The digits of a block are read back as the block. -/
theorem ofDigits?_digits (block : List UInt8) :
    ofDigits? (block.flatMap fun v => digits 2 v.toNat) = some block := by
  induction block with
  | nil => rfl
  | cons v rest ih =>
    have hi := value?_digit (v.toNat / 16 % 16) (Nat.mod_lt _ (by decide))
    have lo := value?_digit (v.toNat % 16) (Nat.mod_lt _ (by decide))
    have row : digits 2 v.toNat = [digit (v.toNat / 16 % 16), digit (v.toNat % 16)] := rfl
    simp only [List.flatMap_cons, row, List.cons_append, List.nil_append, ofDigits?, hi, lo, ih,
      Option.bind_eq_bind, Option.bind_some, ofNat_halves, pure]

/-- A block that is written is read back. -/
@[simp] theorem ofString?_bytes (block : List UInt8) : ofString? (bytes block) = some block := by
  simp [ofString?, bytes, ofDigits?_digits]

end Z80.Hex

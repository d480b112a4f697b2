import Z80.Text.Hex

/-!
# Values of queries

What a query about a processor answers: a truth value, a byte, a word or a count, each with its
own way to be shown.
-/

namespace Z80

/-- The answer to a query. -/
inductive Value
  /-- A truth value. -/
  | bool (b : Bool)
  /-- A byte. -/
  | byte (v : UInt8)
  /-- A word. -/
  | word (w : UInt16)
  /-- A count. -/
  | count (n : Nat)
  deriving DecidableEq

namespace Value

/-- The value as a number; truth values count as 0 and 1. -/
def toNat : Value → Nat
  | .bool b => b.toNat
  | .byte v => v.toNat
  | .word w => w.toNat
  | .count n => n

/-- The name of the kind of value. -/
def kind : Value → String
  | .bool _ => "Bool"
  | .byte _ => "U8"
  | .word _ => "U16"
  | .count _ => "U64"

/-- The value as text: bytes and words in hexadecimal, counts in decimal. -/
def display : Value → String
  | .bool b => if b then "true" else "false"
  | .byte v => "0x" ++ Hex.byte v
  | .word w => "0x" ++ Hex.word w
  | .count n => toString n

end Value

end Z80

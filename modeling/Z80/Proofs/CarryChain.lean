import Mathlib.Data.Nat.Digits.Defs
import Mathlib.Tactic.LinearCombination
import Z80.Proofs.ByteArithmetic

/-!
# Chains through the carry

A number that is too wide for the accumulator is kept in several bytes, each a digit to some base, and it
is worked on byte by byte: every operation takes the carry flag that the one before it leaves.  `chain` is
such a sequence of operations, from the flags before the first one to those after the last one.

If one operation is exact on digits, with its carry standing for the next place, then a chain of any length
is exact on numbers, with the last carry standing for the place after the last digit
(`Numeral.Exact.value_chain`).  The induction is on the digits, and it is the carry in the middle that ties
the first operation to the rest.
-/

namespace Z80

/-! ## Chains -/

/-- Operations that take the carry flag one after the other: the bytes that come out, in order, and the
flags in the end. -/
def chain : List (Bool → Result) → Flags → List UInt8 × Flags
  | [], f => ([], f)
  | op :: ops, f =>
    let result := op f.c
    let rest := chain ops result.flags
    (result.value :: rest.1, rest.2)

section Chain

variable (ops ops' : List (Bool → Result)) (f : Flags)

/-- Every operation gives one byte. -/
@[simp] lemma length_chain : (chain ops f).1.length = ops.length := by
  induction ops generalizing f with
  | nil => rfl
  | cons op ops ih => exact congrArg Nat.succ (ih _)

/-- A chain goes on with the flags that it has come to. -/
lemma chain_append :
    chain (ops ++ ops') f =
      ((chain ops f).1 ++ (chain ops' (chain ops f).2).1, (chain ops' (chain ops f).2).2) := by
  induction ops generalizing f with
  | nil => rfl
  | cons op ops ih =>
    rw [List.cons_append, chain, ih]
    rfl

end Chain

/-! ## Numbers in several bytes -/

/-- A way to write numbers in bytes, the least significant one first. -/
structure Numeral where
  /-- The base. -/
  base : Nat
  /-- Which bytes are digits. -/
  IsDigit : UInt8 → Prop
  /-- The value of a digit. -/
  digit : UInt8 → Nat

namespace Numeral

/-- Every byte is a digit. -/
def binary : Numeral where
  base := 256
  IsDigit _ := True
  digit := UInt8.toNat

/-- The number that bytes stand for. -/
def value (k : Numeral) (xs : List UInt8) : Nat :=
  Nat.ofDigits k.base (xs.map k.digit)

variable (k : Numeral)

@[simp] lemma value_nil : k.value [] = 0 := rfl

@[simp] lemma value_cons (x : UInt8) (xs : List UInt8) :
    k.value (x :: xs) = k.digit x + k.base * k.value xs :=
  Nat.ofDigits_cons

lemma value_append (xs ys : List UInt8) :
    k.value (xs ++ ys) = k.value xs + k.base ^ xs.length * k.value ys := by
  rw [value, List.map_append, Nat.ofDigits_append, List.length_map]
  rfl

/-- The operation is exact on digits: it gives a digit, and with its carry as the next place it gives the
exact sum, or the exact difference. -/
structure Exact (subtracts : Bool) (op : UInt8 → UInt8 → Bool → Result) : Prop where
  /-- The result is a digit. -/
  isDigit : ∀ {x y : UInt8} (carry : Bool), k.IsDigit x → k.IsDigit y → k.IsDigit (op x y carry).value
  /-- With its carry, the result is exact. -/
  digit : ∀ {x y : UInt8} (carry : Bool), k.IsDigit x → k.IsDigit y →
    exactValue subtracts (k.digit x) (k.digit y) carry =
      exactValue subtracts (k.digit (op x y carry).value) (k.base * (op x y carry).flags.c.toNat) false

namespace Exact

variable {k : Numeral} {subtracts : Bool} {op : UInt8 → UInt8 → Bool → Result} (h : k.Exact subtracts op)
  {xs ys : List UInt8} (hlength : xs.length = ys.length) (hxs : ∀ x ∈ xs, k.IsDigit x)
  (hys : ∀ y ∈ ys, k.IsDigit y) (f : Flags)

include h hlength hxs hys

/-- A chain gives digits. -/
lemma isDigit_chain : ∀ v ∈ (chain (List.zipWith op xs ys) f).1, k.IsDigit v := by
  induction xs generalizing ys f with
  | nil => simp [chain]
  | cons x xs ih =>
    obtain ⟨y, ys, rfl⟩ := List.exists_cons_of_length_eq_add_one hlength.symm
    rw [List.forall_mem_cons] at hxs hys
    rw [List.zipWith_cons_cons, chain, List.forall_mem_cons]
    exact ⟨h.isDigit f.c hxs.1 hys.1, ih (Nat.succ.inj hlength) hxs.2 hys.2 _⟩

/-- A chain of exact operations is exact, with its carry as the place after the last digit. -/
lemma value_chain :
    let result := chain (List.zipWith op xs ys) f
    exactValue subtracts (k.value xs) (k.value ys) f.c =
      exactValue subtracts (k.value result.1) (k.base ^ xs.length * result.2.c.toNat) false := by
  induction xs generalizing ys f with
  | nil =>
    obtain rfl : ys = [] := List.length_eq_zero_iff.1 hlength.symm
    cases subtracts <;> simp [chain, exactValue]
  | cons x xs ih =>
    obtain ⟨y, ys, rfl⟩ := List.exists_cons_of_length_eq_add_one hlength.symm
    rw [List.forall_mem_cons] at hxs hys
    have hfirst := h.digit f.c hxs.1 hys.1
    have hrest := ih (Nat.succ.inj hlength) hxs.2 hys.2 (op x y f.c).flags
    simp only [List.zipWith_cons_cons, chain, value_cons, List.length_cons, pow_succ]
    push_cast
    cases subtracts with
    | false =>
      simp only [exactValue_false, Bool.toNat_false] at hfirst hrest ⊢
      linear_combination hfirst + k.base * hrest
    | true =>
      simp only [exactValue_true, Bool.toNat_false] at hfirst hrest ⊢
      linear_combination hfirst + k.base * hrest

end Exact

variable {k : Numeral} {op : UInt8 → UInt8 → Bool → Result} {xs ys : List UInt8}
  (hlength : xs.length = ys.length) (hxs : ∀ x ∈ xs, k.IsDigit x) (hys : ∀ y ∈ ys, k.IsDigit y)
  (f : Flags)

include hlength hxs hys

/-- A chain of sums is the sum. -/
lemma Exact.sum_chain (h : k.Exact false op) :
    let result := chain (List.zipWith op xs ys) f
    result.1.length = xs.length ∧
      k.value result.1 + result.2.c.toNat * k.base ^ xs.length =
        k.value xs + k.value ys + f.c.toNat := by
  intro result
  have hvalue := h.value_chain hlength hxs hys f
  simp only [exactValue_false, Bool.toNat_false] at hvalue
  refine ⟨by simp [result, hlength], ?_⟩
  zify
  linear_combination -hvalue

/-- A chain of differences is the difference. -/
lemma Exact.difference_chain (h : k.Exact true op) :
    let result := chain (List.zipWith op xs ys) f
    result.1.length = xs.length ∧
      (k.value result.1 : Int) - result.2.c.toNat * k.base ^ xs.length =
        k.value xs - k.value ys - f.c.toNat := by
  intro result
  have hvalue := h.value_chain hlength hxs hys f
  simp only [exactValue_true, Bool.toNat_false] at hvalue
  refine ⟨by simp [result, hlength], ?_⟩
  linear_combination -hvalue

end Numeral

/-! ## Sums and differences of bytes -/

/-- The operation is the sum, or the difference, of two bytes and a carry, and its flags describe it. -/
def Calculates (subtracts : Bool) (op : UInt8 → UInt8 → Bool → Result) : Prop :=
  ∀ a b carry, (op a b carry).flags.Calculated subtracts a b carry (op a b carry).value ∧
    (op a b carry).flags.Describe (op a b carry).value (op a b carry).value

lemma Arithmetic.calculates_add : Calculates false add :=
  fun a b carry => ⟨calculated_add a b carry, describe_add a b carry⟩

lemma Arithmetic.calculates_sub : Calculates true sub :=
  fun a b carry => ⟨calculated_sub a b carry, describe_sub a b carry⟩

end Z80

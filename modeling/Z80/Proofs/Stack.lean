import Mathlib.Tactic.Common
import Z80.Memory.Basic

/-!
# Words on the stack

A word is put on the stack in the two bytes below the stack pointer, the high byte first.  Whatever
the stack pointer is, also where the stack crosses the end of the address space, the word is found
again at the new top, and every other byte stays.
-/

namespace Z80.Memory

variable (m : Memory)

/-- A write changes no other byte. -/
lemma read_write_of_ne {a b : UInt16} (v : UInt8) (h : b ≠ a) :
    (m.write a v).read b = m.read b := by
  rw [read_write, if_neg h]

/-- The memory with a word put on the stack whose top is at `sp`. -/
def push (sp v : UInt16) : Memory :=
  (m.write (sp - 1) (high v)).write (sp - 2) (low v)

/-- Putting a word on the stack changes the two bytes below its top only. -/
lemma read_push_of_notMem {sp a : UInt16} (v : UInt16) (h : a ∉ [sp - 1, sp - 2]) :
    (m.push sp v).read a = m.read a := by
  simp only [List.mem_cons, List.not_mem_nil, or_false, not_or] at h
  obtain ⟨hhigh, hlow⟩ := h
  rw [push, read_write_of_ne _ _ hlow, read_write_of_ne _ _ hhigh]

/-- A word that is put on the stack is found at the new top. -/
@[simp] lemma readWord_push (sp v : UInt16) : (m.push sp v).readWord (sp - 2) = v := by
  have hnext : sp - 2 + 1 = sp - 1 := by grind
  have hne : sp - 1 ≠ sp - 2 := by grind
  have hhigh : (m.push sp v).read (sp - 2 + 1) = high v := by
    rw [hnext, push, read_write_of_ne _ _ hne, read_write, if_pos rfl]
  have hlow : (m.push sp v).read (sp - 2) = low v := by
    rw [push, read_write, if_pos rfl]
  rw [readWord, hhigh, hlow, word_high_low]

end Z80.Memory

import Mathlib.Tactic.Common
import Z80.Proofs.Word
import Z80.Registers.Selector

/-!
# Registers by name as views

Twenty-seven selectors look at the twenty-six fields of a register file that have names; the halt line has
none.  Most selectors stand for one field, and a pair stands for two, its high byte first
(`Selector.fields`).  Reading a selector reads its fields one behind the other
(`Registers.get_eq_joined`), and writing it changes no other field
(`Registers.mem_fields_or_field_set`).

So what a write changes in the view of another selector is decided by the fields that they share.  Two
different selectors share a field only if one is a half of the other (`Selector.Shares.cases`).  With that,
`Registers.selector_laws` says what every selector reads after a write to any selector.
-/

namespace Z80

/-- The low byte of a word is its remainder by 256. -/
lemma toUInt16_low (w : UInt16) : (low w).toUInt16 = w % 256 := by
  apply UInt16.toNat_inj.1
  rw [UInt8.toNat_toUInt16, toNat_low, UInt16.toNat_mod]
  rfl

/-- The high byte of a word is its quotient by 256. -/
lemma toUInt16_high (w : UInt16) : (high w).toUInt16 = w / 256 := by
  apply UInt16.toNat_inj.1
  rw [UInt8.toNat_toUInt16, toNat_high, UInt16.toNat_div]
  rfl

/-- A low byte may be cut at 2 before or after it is widened. -/
lemma toUInt16_min_low (w : UInt16) : (min (low w) 2).toUInt16 = min (w % 256) 2 := by
  have hle : (low w).toUInt16 ≤ 2 ↔ low w ≤ 2 := by
    show (low w).toUInt16 ≤ (2 : UInt8).toUInt16 ↔ _
    exact UInt8.toUInt16_le
  rw [← toUInt16_low]
  show (if low w ≤ 2 then low w else 2).toUInt16 = if (low w).toUInt16 ≤ 2 then _ else 2
  by_cases hsmall : low w ≤ 2
  · rw [if_pos hsmall, if_pos (hle.2 hsmall)]
  · rw [if_neg hsmall, if_neg (mt hle.1 hsmall)]
    rfl

/-! ## Fields -/

/-- The fields of a register file that selectors stand for. -/
inductive Field
  | a | f | b | c | d | e | h | l
  | shadowA | shadowF | shadowB | shadowC | shadowD | shadowE | shadowH | shadowL
  | ix | iy | sp | pc | i | r | wz | iff1 | iff2 | im
  deriving DecidableEq

/-- What is in a field, widened to a word. -/
def Registers.field (k : Registers) : Field → UInt16
  | .a => k.a.toUInt16
  | .f => k.f.toByte.toUInt16
  | .b => k.b.toUInt16
  | .c => k.c.toUInt16
  | .d => k.d.toUInt16
  | .e => k.e.toUInt16
  | .h => k.h.toUInt16
  | .l => k.l.toUInt16
  | .shadowA => k.shadow.a.toUInt16
  | .shadowF => k.shadow.f.toByte.toUInt16
  | .shadowB => k.shadow.b.toUInt16
  | .shadowC => k.shadow.c.toUInt16
  | .shadowD => k.shadow.d.toUInt16
  | .shadowE => k.shadow.e.toUInt16
  | .shadowH => k.shadow.h.toUInt16
  | .shadowL => k.shadow.l.toUInt16
  | .ix => k.ix
  | .iy => k.iy
  | .sp => k.sp
  | .pc => k.pc
  | .i => k.i.toUInt16
  | .r => k.r.toUInt16
  | .wz => k.wz
  | .iff1 => k.iff1.toUInt16
  | .iff2 => k.iff2.toUInt16
  | .im => k.im.toUInt16

namespace Selector

/-- The fields that a selector stands for, the high byte first. -/
def fields : Selector → List Field
  | .a => [.a]
  | .f => [.f]
  | .b => [.b]
  | .c => [.c]
  | .d => [.d]
  | .e => [.e]
  | .h => [.h]
  | .l => [.l]
  | .af => [.a, .f]
  | .bc => [.b, .c]
  | .de => [.d, .e]
  | .hl => [.h, .l]
  | .shadowAF => [.shadowA, .shadowF]
  | .shadowBC => [.shadowB, .shadowC]
  | .shadowDE => [.shadowD, .shadowE]
  | .shadowHL => [.shadowH, .shadowL]
  | .ix => [.ix]
  | .iy => [.iy]
  | .sp => [.sp]
  | .pc => [.pc]
  | .i => [.i]
  | .r => [.r]
  | .ir => [.i, .r]
  | .wz => [.wz]
  | .iff1 => [.iff1]
  | .iff2 => [.iff2]
  | .im => [.im]

/-- The selectors of the high and the low half of a pair.  The halves of the shadow pairs have no
selector. -/
def halves? : Selector → Option (Selector × Selector)
  | .af => some (.a, .f)
  | .bc => some (.b, .c)
  | .de => some (.d, .e)
  | .hl => some (.h, .l)
  | .ir => some (.i, .r)
  | _ => none

/-- What a selector reads after a word has been written to it. -/
def kept (s : Selector) (v : UInt16) : UInt16 :=
  match s with
  | .a | .f | .b | .c | .d | .e | .h | .l | .i | .r => v % 256
  | .iff1 | .iff2 => if v = 0 then 0 else 1
  | .im => min (v % 256) 2
  | .af | .bc | .de | .hl | .shadowAF | .shadowBC | .shadowDE | .shadowHL | .ix | .iy | .sp | .pc
  | .ir | .wz => v

/-- Two selectors share a field. -/
def Shares (s t : Selector) : Prop :=
  ∃ g ∈ s.fields, g ∈ t.fields

instance (s t : Selector) : Decidable (s.Shares t) :=
  inferInstanceAs (Decidable (∃ g ∈ s.fields, g ∈ t.fields))

/-- Every selector is listed. -/
lemma mem_all (s : Selector) : s ∈ all := by
  cases s <;> decide

/-- Two selectors that share a field are the same, or one is a half of the other. -/
lemma Shares.cases {s t : Selector} (h : s.Shares t) :
    t = s ∨ (∃ lo, t.halves? = some (s, lo)) ∨ (∃ hi, t.halves? = some (hi, s)) ∨
      (∃ lo, s.halves? = some (t, lo)) ∨ ∃ hi, s.halves? = some (hi, t) := by
  have hlisted : ∀ s ∈ all, ∀ t ∈ all, s.Shares t →
      t = s ∨ t.halves?.map Prod.fst = some s ∨ t.halves?.map Prod.snd = some s ∨
        s.halves?.map Prod.fst = some t ∨ s.halves?.map Prod.snd = some t := by
    decide +kernel
  simpa only [Option.map_eq_some_iff, Prod.exists, exists_and_right, exists_eq_right] using
    hlisted s s.mem_all t t.mem_all h

/-- A selector does not share a field with the other half of its pair. -/
lemma not_shares_of_halves {s hi lo : Selector} (h : s.halves? = some (hi, lo)) :
    ¬ hi.Shares lo ∧ ¬ lo.Shares hi := by
  cases s <;> cases h <;> decide

end Selector

namespace Registers

variable (k : Registers) (s : Selector) (v : UInt16)

/-- Reading a selector reads its fields one behind the other. -/
lemma get_eq_joined : k.get s = (s.fields.map k.field).foldl (fun w x => w * 256 + x) 0 := by
  cases s <;> simp [get, Selector.fields, field, Bank.af, Bank.bc, Bank.de, Bank.hl, ir, word]

/-- Writing a selector reaches the fields that it stands for and leaves all others. -/
lemma mem_fields_or_field_set (g : Field) :
    g ∈ s.fields ∨ (k.set s v).field g = k.field g := by
  cases s <;> cases g <;> first | (left; decide) | (right; rfl)

/-- A selector that shares no field with the one that is written reads what it read before. -/
lemma get_set_of_not_shares {t : Selector} (h : ¬ s.Shares t) :
    (k.set s v).get t = k.get t := by
  have hfields : t.fields.map (k.set s v).field = t.fields.map k.field := by
    refine List.map_congr_left fun g hg => ?_
    exact (k.mem_fields_or_field_set s v g).resolve_left fun hs => h ⟨g, hs, hg⟩
  rw [get_eq_joined, get_eq_joined, hfields]

/-- What is written is read back as far as the selector keeps it. -/
lemma get_set : (k.set s v).get s = s.kept v := by
  cases s with
  | a | b | c | d | e | h | l | i | r => exact toUInt16_low v
  | f =>
    show (Flags.ofByte (low v)).toByte.toUInt16 = v % 256
    rw [Flags.toByte_ofByte, toUInt16_low]
  | af | shadowAF =>
    show word (high v) (Flags.ofByte (low v)).toByte = v
    rw [Flags.toByte_ofByte, word_high_low]
  | bc | de | hl | shadowBC | shadowDE | shadowHL | ir => exact word_high_low v
  | ix | iy | sp | pc | wz => rfl
  | iff1 | iff2 =>
    show (v != 0).toUInt16 = if v = 0 then 0 else 1
    by_cases hzero : v = 0
    · rw [if_pos hzero, hzero]
      rfl
    · rw [if_neg hzero, bne_iff_ne.2 hzero]
      rfl
  | im => exact toUInt16_min_low v

/-- A pair reads as its two halves. -/
lemma get_of_halves {hi lo : Selector} (h : s.halves? = some (hi, lo)) :
    k.get s = k.get hi * 256 + k.get lo := by
  cases s <;> cases h <;> rfl

/-- A pair that is written puts a byte into each of its halves. -/
lemma get_halves_set {hi lo : Selector} (h : s.halves? = some (hi, lo)) :
    (k.set s v).get hi = v / 256 ∧ (k.set s v).get lo = v % 256 := by
  have hhigh : (high v).toUInt16 = v / 256 := toUInt16_high v
  have hlow : (low v).toUInt16 = v % 256 := toUInt16_low v
  cases s <;> cases h
  case af =>
    refine ⟨hhigh, ?_⟩
    show (Flags.ofByte (low v)).toByte.toUInt16 = v % 256
    rw [Flags.toByte_ofByte, hlow]
  all_goals exact ⟨hhigh, hlow⟩

/-- A half that is written takes the low byte, and the pair keeps its other half. -/
lemma get_pair_set {hi lo : Selector} (h : s.halves? = some (hi, lo)) :
    (k.set hi v).get s = v % 256 * 256 + k.get lo ∧
      (k.set lo v).get s = k.get hi * 256 + v % 256 := by
  obtain ⟨hhi, hlo⟩ := Selector.not_shares_of_halves h
  have hbytes : hi.kept v = v % 256 ∧ lo.kept v = v % 256 := by
    cases s <;> cases h <;> exact ⟨rfl, rfl⟩
  rw [get_of_halves _ _ h, get_of_halves _ _ h, get_set, get_set, hbytes.1, hbytes.2,
    get_set_of_not_shares _ _ _ hhi, get_set_of_not_shares _ _ _ hlo]
  exact ⟨rfl, rfl⟩

/-- The second of two writes counts. -/
lemma set_set (w : UInt16) : (k.set s v).set s w = k.set s w := by
  cases s <;> rfl

/-- Writing what was read changes nothing, but for an interrupt mode that is out of range. -/
lemma set_get : k.set s (k.get s) = if s = .im then { k with im := min k.im 2 } else k := by
  have hflag : ∀ b : Bool, (b.toUInt16 != 0) = b := by decide
  cases s with
  | iff1 | iff2 => simp [set, get, hflag]
  | _ => simp [set, get, setAF, setBC, setDE, setHL, Bank.af, Bank.bc, Bank.de, Bank.hl, ir]

/-- No selector reaches the halt line. -/
lemma halted_set : (k.set s v).halted = k.halted := by
  cases s <;> rfl

/-- A register file that is read and written by name obeys the laws of views.  A selector reads back the
part of a word that it keeps, and a write shows in no selector that shares no field with the one written.
In a pair and its halves it shows as the new byte in the shared half, beside the old byte of the other one.
The halt line has no selector and stays.  Of two writes to one selector the second counts, and writing back
what was read changes nothing, but that an interrupt mode above 2 is cut to 2. -/
theorem selector_laws :
    (k.set s v).get s = s.kept v ∧
    (∀ t, ¬ s.Shares t → (k.set s v).get t = k.get t) ∧
    (∀ t, s.Shares t → t = s ∨
      (∃ lo, t.halves? = some (s, lo) ∧ (k.set s v).get t = v % 256 * 256 + k.get lo) ∨
      (∃ hi, t.halves? = some (hi, s) ∧ (k.set s v).get t = k.get hi * 256 + v % 256) ∨
      (∃ lo, s.halves? = some (t, lo) ∧ (k.set s v).get t = v / 256) ∨
      (∃ hi, s.halves? = some (hi, t) ∧ (k.set s v).get t = v % 256)) ∧
    (k.set s v).halted = k.halted ∧
    (∀ w, (k.set s v).set s w = k.set s w) ∧
    k.set s (k.get s) = if s = .im then { k with im := min k.im 2 } else k := by
  refine ⟨k.get_set s v, fun t => k.get_set_of_not_shares s v, ?_, k.halted_set s v, k.set_set s v,
    k.set_get s⟩
  intro t ht
  rcases ht.cases with same | ⟨lo, half⟩ | ⟨hi, half⟩ | ⟨lo, half⟩ | ⟨hi, half⟩
  · exact .inl same
  · exact .inr (.inl ⟨lo, half, (k.get_pair_set t v half).1⟩)
  · exact .inr (.inr (.inl ⟨hi, half, (k.get_pair_set t v half).2⟩))
  · exact .inr (.inr (.inr (.inl ⟨lo, half, (k.get_halves_set s v half).1⟩)))
  · exact .inr (.inr (.inr (.inr ⟨hi, half, (k.get_halves_set s v half).2⟩)))

end Registers

end Z80

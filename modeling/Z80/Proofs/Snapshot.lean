import Mathlib.Data.List.Forall2
import Z80.Proofs.Resume

/-!
# What is read as a snapshot

This file says what is read as a snapshot without the reader.  A value is of a kind if it is a truth value
or an integer of a range (`Json.OfKinds`), and lists of values of the right kinds are just the fields of
register files (`Registers.ofKinds_iff`).  Together with what it means that a value gives the fields of a
record, this tells when a register file is read (`Registers.exists_decode?_iff`), and `snapshot_codec` what
that does to a machine.  All of it holds of any lawful codec.
-/

namespace Z80

/-! ## Kinds of values -/

namespace Json

/-- The value is an integer that is not negative and less than a bound. -/
def IsBelow (bound : Nat) (j : Json) : Prop :=
  ∃ n < bound, j = .ofNat n

/-- The value is a truth value. -/
def IsBool (j : Json) : Prop :=
  ∃ b, j = .bool b

/-- Each value is of the kind in the same place. -/
def OfKinds (kinds : List (Json → Prop)) (values : List Json) : Prop :=
  List.Forall₂ (fun kind v => kind v) kinds values

/-- A float is below no bound, even if its value is. -/
lemma not_isBelow_ofFloat (bound : Nat) (mantissa : Int) (places : Nat) :
    ¬ (ofFloat mantissa places).IsBelow bound := by
  rintro ⟨n, -, hn⟩
  simp [ofFloat, ofNat] at hn

end Json

namespace Codec.Lawful

variable {codec : Codec} (hcodec : codec.Lawful)
include hcodec

/-- Just the integers below 256 are written forms of bytes. -/
lemma isBelow_byte : Json.IsBelow 256 = fun j => ∃ v, j = codec.ofByte v := by
  funext j
  refine propext ⟨?_, ?_⟩
  · rintro ⟨n, hn, rfl⟩
    exact ⟨.ofNat n, by rw [hcodec.ofByte_eq, UInt8.toNat_ofNat_of_lt' hn]⟩
  · rintro ⟨v, rfl⟩
    exact ⟨_, v.toNat_lt, hcodec.ofByte_eq v⟩

/-- Just the integers below 65536 are written forms of words. -/
lemma isBelow_word : Json.IsBelow 65536 = fun j => ∃ w, j = codec.ofWord w := by
  funext j
  refine propext ⟨?_, ?_⟩
  · rintro ⟨n, hn, rfl⟩
    exact ⟨.ofNat n, by rw [hcodec.ofWord_eq, UInt16.toNat_ofNat_of_lt' hn]⟩
  · rintro ⟨w, rfl⟩
    exact ⟨_, w.toNat_lt, hcodec.ofWord_eq w⟩

/-- Truth values are written as such. -/
lemma isBool : Json.IsBool = fun j => ∃ b, j = codec.ofBool b := by
  simp only [hcodec.ofBool_eq]
  rfl

end Codec.Lawful

section Kinds

variable {codec : Codec} (hcodec : codec.Lawful)

/-! ## Register files -/

namespace Bank

/-- The kinds of the fields of a bank. -/
def fieldKinds : List (Json → Prop) :=
  List.replicate 8 (Json.IsBelow 256)

include hcodec in
/-- Values that begin with eight bytes begin with the fields of a bank. -/
lemma ofKinds_append_iff {kinds : List (Json → Prop)} {values : List Json} :
    Json.OfKinds (fieldKinds ++ kinds) values ↔
      ∃ (k : Bank) (rest : List Json), Json.OfKinds kinds rest ∧ values = k.fieldValues codec ++ rest := by
  rw [fieldKinds, hcodec.isBelow_byte]
  constructor
  · intro hkinds
    obtain _ | ⟨⟨a, rfl⟩, _ | ⟨⟨f, rfl⟩, _ | ⟨⟨b, rfl⟩, _ | ⟨⟨c, rfl⟩, _ | ⟨⟨d, rfl⟩, _ | ⟨⟨e, rfl⟩,
      _ | ⟨⟨h, rfl⟩, _ | ⟨⟨l, rfl⟩, hrest⟩⟩⟩⟩⟩⟩⟩⟩ := hkinds
    refine ⟨{ a, f := .ofByte f, b, c, d, e, h, l }, _, hrest, ?_⟩
    rw [fieldValues, Flags.toByte_ofByte]
    rfl
  · rintro ⟨k, rest, hrest, rfl⟩
    simpa [Json.OfKinds, fieldValues, List.replicate] using hrest

end Bank

namespace Registers

/-- The kinds of the fields of a register file, in the order of their names. -/
def fieldKinds : List (Json → Prop) :=
  -- the two banks
  Bank.fieldKinds ++ (Bank.fieldKinds ++
    -- index registers, stack pointer and program counter
    [Json.IsBelow 65536, Json.IsBelow 65536, Json.IsBelow 65536, Json.IsBelow 65536,
      -- interrupt page, refresh counter and address latch
      Json.IsBelow 256, Json.IsBelow 256, Json.IsBelow 65536,
      -- the interrupt system and the halt line
      Json.IsBool, Json.IsBool, Json.IsBelow 256, Json.IsBool])

include hcodec

/-- Values of the right kinds are the fields of a register file. -/
lemma ofKinds_iff {values : List Json} :
    Json.OfKinds fieldKinds values ↔ ∃ k : Registers, values = k.fieldValues codec := by
  constructor
  · intro hkinds
    obtain ⟨main, values, hvalues, rfl⟩ := (Bank.ofKinds_append_iff hcodec).1 hkinds
    obtain ⟨shadow, others, hothers, rfl⟩ := (Bank.ofKinds_append_iff hcodec).1 hvalues
    rw [hcodec.isBelow_byte, hcodec.isBelow_word, hcodec.isBool] at hothers
    obtain _ | ⟨⟨ix, rfl⟩, _ | ⟨⟨iy, rfl⟩, _ | ⟨⟨sp, rfl⟩, _ | ⟨⟨pc, rfl⟩, _ | ⟨⟨i, rfl⟩,
      _ | ⟨⟨r, rfl⟩, _ | ⟨⟨wz, rfl⟩, _ | ⟨⟨iff1, rfl⟩, _ | ⟨⟨iff2, rfl⟩, _ | ⟨⟨im, rfl⟩,
      _ | ⟨⟨halted, rfl⟩, _ | _⟩⟩⟩⟩⟩⟩⟩⟩⟩⟩⟩ := hothers
    exact ⟨{ main with shadow, ix, iy, sp, pc, i, r, wz, iff1, iff2, im, halted }, rfl⟩
  · rintro ⟨k, rfl⟩
    refine (Bank.ofKinds_append_iff hcodec).2 ⟨k.toBank, _, ?_, rfl⟩
    refine (Bank.ofKinds_append_iff hcodec).2 ⟨k.shadow, _, ?_, rfl⟩
    rw [hcodec.isBelow_byte, hcodec.isBelow_word, hcodec.isBool]
    simp only [Json.OfKinds, List.forall₂_cons, exists_apply_eq_apply', List.Forall₂.nil, and_self]

/-- A register file is read from a value that gives its fields, each with a value of its kind. -/
lemma exists_decode?_iff {j : Json} (hkeys : j.HasDistinctKeys) :
    (∃ k, decode? codec j = some k) ↔
      ∃ values, j.Gives fieldNames values ∧ Json.OfKinds fieldKinds values := by
  simp only [decode?_eq_some_iff hcodec hkeys, ofKinds_iff hcodec]
  constructor
  · rintro ⟨k, hgives⟩
    exact ⟨_, hgives, k, rfl⟩
  · rintro ⟨_, hgives, k, rfl⟩
    exact ⟨k, hgives⟩

end Registers

/-! ## Configurations -/

namespace Config

/-- The kinds of the fields of a configuration, in the order of their names. -/
def fieldKinds : List (Json → Prop) :=
  [fun v => v.Names "Nmos" ∨ v.Names "Bm1", Json.IsBelow 256]

include hcodec in
/-- A configuration is read from a value that gives its fields, each with a value of its kind. -/
lemma exists_decode?_iff {j : Json} (hkeys : j.HasDistinctKeys) :
    (∃ c, decode? codec j = some c) ↔
      ∃ values, j.Gives fieldNames values ∧ Json.OfKinds fieldKinds values := by
  simp only [decode?_eq_some_iff hcodec hkeys, fieldKinds, hcodec.isBelow_byte]
  constructor
  · rintro ⟨⟨revision, interruptByte⟩, v, hname, hgives⟩
    refine ⟨_, hgives, .cons ?_ (.cons ⟨_, rfl⟩ .nil)⟩
    cases revision with
    | nmos => exact .inl hname
    | bm1 => exact .inr hname
  · rintro ⟨_, hgives, _ | ⟨hname, _ | ⟨⟨interruptByte, rfl⟩, _ | _⟩⟩⟩
    rcases hname with hname | hname
    · exact ⟨{ revision := .nmos, interruptByte }, _, hname, hgives⟩
    · exact ⟨{ revision := .bm1, interruptByte }, _, hname, hgives⟩

end Config

end Kinds

/-! ## Restoring -/

namespace Machine

/-- Replaces the register file by one that is read from a value, and tells whether there was one to
read. -/
def restoreFrom (codec : Codec) (m : Machine) (j : Json) : Bool × Machine :=
  match Registers.decode? codec j with
  | some k => (true, m.perform (.restore k))
  | none => (false, m)

variable {codec : Codec} {m : Machine} {j : Json}

/-- A machine is restored if there is a register file to read. -/
lemma restoreFrom_eq_true_iff :
    (m.restoreFrom codec j).1 = true ↔ ∃ k, Registers.decode? codec j = some k := by
  unfold restoreFrom
  cases Registers.decode? codec j <;> simp

/-- A machine that is restored has the register file that was read and is otherwise as it was. -/
lemma restoreFrom_of_decode? {k : Registers} (h : Registers.decode? codec j = some k) :
    (m.restoreFrom codec j).2 = { m with processor := { m.processor with registers := k } } := by
  rw [restoreFrom, h]
  rfl

/-- A machine that is not restored is as it was. -/
lemma restoreFrom_of_eq_false (h : (m.restoreFrom codec j).1 = false) :
    (m.restoreFrom codec j).2 = m := by
  unfold restoreFrom at h ⊢
  cases hread : Registers.decode? codec j with
  | none => rfl
  | some k =>
    rw [hread] at h
    cases h

end Machine

/-- **A snapshot is read as a whole or not at all.**  With a lawful codec, the written form of any register
file and of any configuration is read back.  Any value whose names are distinct restores a machine just if
it gives the twenty-seven fields of a register file, an object among any others and a list as just their
values in order, and each has a value of its kind: an integer from 0 up to the range of its field, which no
float is, or a truth value.  The machine then has these fields as its registers and is otherwise what it
was, and if there is nothing to read it is what it was.  A configuration is read just if both fields are
given, a name of a revision and a byte, and is then what the fields say. -/
theorem snapshot_codec (codec : Codec) (hcodec : codec.Lawful) (m : Machine) (j : Json)
    (hkeys : j.HasDistinctKeys) :
    (∀ k : Registers, Registers.decode? codec (k.encode codec) = some k) ∧
    (∀ c : Config, Config.decode? codec (c.encode codec) = some c) ∧
    ((m.restoreFrom codec j).1 = true ↔
      ∃ values, j.Gives Registers.fieldNames values ∧ Json.OfKinds Registers.fieldKinds values) ∧
    ((m.restoreFrom codec j).1 = true →
      ∃ k : Registers, j.Gives Registers.fieldNames (k.fieldValues codec) ∧
        (m.restoreFrom codec j).2 = { m with processor := { m.processor with registers := k } }) ∧
    ((m.restoreFrom codec j).1 = false → (m.restoreFrom codec j).2 = m) ∧
    ((∃ c, Config.decode? codec j = some c) ↔
      ∃ values, j.Gives Config.fieldNames values ∧ Json.OfKinds Config.fieldKinds values) ∧
    ∀ c, Config.decode? codec j = some c ↔
      ∃ v, v.Names c.revision.name ∧
        j.Gives Config.fieldNames [v, codec.ofByte c.interruptByte] := by
  refine ⟨Registers.decode?_encode hcodec, Config.decode?_encode hcodec, ?_, fun hread => ?_,
    Machine.restoreFrom_of_eq_false, Config.exists_decode?_iff hcodec hkeys,
    fun c => Config.decode?_eq_some_iff hcodec hkeys⟩
  · rw [Machine.restoreFrom_eq_true_iff]
    exact Registers.exists_decode?_iff hcodec hkeys
  · obtain ⟨k, hk⟩ := Machine.restoreFrom_eq_true_iff.1 hread
    exact ⟨k, (Registers.decode?_eq_some_iff hcodec hkeys).1 hk, Machine.restoreFrom_of_decode? hk⟩

/-- A register file with an interrupt mode above 2 is restored from an object that has another field
beside those of a register file. -/
theorem snapshot_codec_extra_field :
    let k : Registers := { Registers.powerOn with im := 7, halted := true }
    let j := Json.object (("note", .null) :: Registers.fieldNames.zip (k.fieldValues .json))
    Codec.json.Lawful ∧ j.HasDistinctKeys ∧ (Machine.restoreFrom .json {} j).1 = true ∧
      ∃ k : Registers, j.Gives Registers.fieldNames (k.fieldValues .json) ∧
        (Machine.restoreFrom .json {} j).2 = { processor := { registers := k } } := by
  intro k j
  have hkeys : j.HasDistinctKeys := by
    show (List.map Prod.fst _).Nodup
    decide
  obtain ⟨-, -, hreads, hrestores, -⟩ := snapshot_codec .json Codec.json_lawful {} j hkeys
  have hread : (Machine.restoreFrom .json {} j).1 = true :=
    hreads.2 ⟨k.fieldValues .json, fun _ => List.mem_cons_of_mem _,
      (Registers.ofKinds_iff Codec.json_lawful).2 ⟨k, rfl⟩⟩
  exact ⟨Codec.json_lawful, hkeys, hread, hrestores hread⟩

/-- A snapshot need not be an object, nor a revision a string: with a lawful codec, a register file is read
from a list of the values of its fields, a configuration from such a list, and a revision from an object
with its name. -/
theorem restores_bare_list :
    Codec.json.Lawful ∧
    (Json.list (Registers.powerOn.fieldValues .json)).HasDistinctKeys ∧
    (¬ ∃ fields, Json.list (Registers.powerOn.fieldValues .json) = .object fields) ∧
    (Machine.restoreFrom .json {} (.list (Registers.powerOn.fieldValues .json))).1 = true ∧
    Config.decode? .json (.list [.string "Nmos", .ofNat 255]) = some {} ∧
    Config.decode? .json
        (.object [("revision", .object [("Bm1", .null)]), ("interrupt_data_bus", .ofNat 5)]) =
      some { revision := .bm1, interruptByte := 5 } := by
  have hkeys : (Json.list (Registers.powerOn.fieldValues .json)).HasDistinctKeys := trivial
  refine ⟨Codec.json_lawful, hkeys, nofun, ?_, rfl, rfl⟩
  exact Machine.restoreFrom_eq_true_iff.2
    ⟨.powerOn, (Registers.decode?_eq_some_iff Codec.json_lawful hkeys).2 rfl⟩

end Z80

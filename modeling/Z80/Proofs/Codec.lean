import Mathlib.Tactic.Common
import Z80.Snapshot.State

/-!
# Snapshots under a lawful codec

A snapshot is read field by field, and it is read as a whole or not at all.  What a field is written as and
what a record is read from is settled by the codec, so this file takes the codec as it comes and assumes the
laws that a serialization library documents (`Codec.Lawful`): integers stand for bytes and words, floats for
nothing, names for variants, and records are objects, or lists of just the values of their fields.

A value *gives* the fields of a record if it is an object that has all of them, among any others, or the
list of their values in order (`Json.Gives`).  A register file or a configuration is read from a value just
if the value gives its fields (`Registers.decode?_eq_some_iff`, `Config.decode?_eq_some_iff`), and so its
written form is read back.  The names in an object have to be distinct, so that it does not matter which of
two fields a reader would find.
-/

namespace Z80

/-! ## Lawful codecs -/

namespace Json

/-- The value stands for a name: it is the string, or the object whose only field has that name and holds
null. -/
def Names (s : String) (j : Json) : Prop :=
  j = .string s ∨ j = .object [(s, .null)]

/-- No two fields of an object have the same name. -/
def HasDistinctKeys : Json → Prop
  | .object fields => (fields.map Prod.fst).Nodup
  | _ => True

/-- The value is an object or a list. -/
def IsContainer (j : Json) : Prop :=
  (∃ fields, j = .object fields) ∨ ∃ items, j = .list items

end Json

/-- What a serialization library promises of its codec for JSON values. -/
structure Codec.Lawful (codec : Codec) : Prop where
  /-- A byte is written as an integer. -/
  ofByte_eq (v : UInt8) : codec.ofByte v = .ofNat v.toNat
  /-- A word is written as an integer. -/
  ofWord_eq (w : UInt16) : codec.ofWord w = .ofNat w.toNat
  /-- A truth value is written as such. -/
  ofBool_eq (b : Bool) : codec.ofBool b = .bool b
  /-- A variant without contents is written as a string. -/
  ofVariant_eq (s : String) : codec.ofVariant s = .string s
  /-- A record is written as an object. -/
  ofRecord_eq (fields : List (String × Json)) : codec.ofRecord fields = .object fields
  /-- A byte is read from an integer of its range and from nothing else. -/
  toByte?_eq_some_iff {j : Json} {v : UInt8} : codec.toByte? j = some v ↔ j = .ofNat v.toNat
  /-- A word is read from an integer of its range and from nothing else. -/
  toWord?_eq_some_iff {j : Json} {w : UInt16} : codec.toWord? j = some w ↔ j = .ofNat w.toNat
  /-- A truth value is read from nothing else. -/
  toBool?_eq_some_iff {j : Json} {b : Bool} : codec.toBool? j = some b ↔ j = .bool b
  /-- A variant is read from what stands for its name. -/
  toVariant?_eq_some_iff {names : List String} {j : Json} {s : String} :
    codec.toVariant? names j = some s ↔ s ∈ names ∧ j.Names s
  /-- From an object, a record is read by the names of its fields; other fields do not matter. -/
  toRecord?_object {names : List String} {fields : List (String × Json)}
    (hkeys : (fields.map Prod.fst).Nodup) :
    ∃ record, codec.toRecord? names (.object fields) = some record ∧
      ∀ name ∈ names, record name = fields.lookup name
  /-- From a list, a record is read in the order of its fields. -/
  toRecord?_list {names : List String} {items : List Json} (hnames : names.Nodup)
    (hlength : items.length = names.length) :
    ∃ record, codec.toRecord? names (.list items) = some record ∧
      ∀ field ∈ names.zip items, record field.1 = some field.2
  /-- A list with another number of items is not read as a record. -/
  toRecord?_list_of_length_ne {names : List String} {items : List Json}
    (hlength : items.length ≠ names.length) : codec.toRecord? names (.list items) = none
  /-- Nothing else is read as a record. -/
  toRecord?_of_not_isContainer {names : List String} {j : Json} (hj : ¬ j.IsContainer) :
    codec.toRecord? names j = none

namespace Json

/-- Just the integers that are not negative are read as natural numbers. -/
lemma toNat?_eq_some_iff {j : Json} {n : Nat} : j.toNat? = some n ↔ j = .ofNat n := by
  constructor
  · fun_cases toNat? j with
    | case1 m =>
      intro h
      cases h
      rfl
    | case2 => exact nofun
  · rintro rfl
    rfl

/-- A byte is read from just the number that it is. -/
lemma toByte?_eq_some_iff {j : Json} {v : UInt8} : j.toByte? = some v ↔ j = .ofNat v.toNat := by
  constructor
  · fun_cases toByte? j with
    | case1 n hn hlt =>
      intro h
      cases h
      rw [toNat?_eq_some_iff.1 hn, UInt8.toNat_ofNat_of_lt' hlt]
    | case2 => exact nofun
    | case3 => exact nofun
  · rintro rfl
    exact toByte?_ofNat v

/-- A word is read from just the number that it is. -/
lemma toWord?_eq_some_iff {j : Json} {w : UInt16} : j.toWord? = some w ↔ j = .ofNat w.toNat := by
  constructor
  · fun_cases toWord? j with
    | case1 n hn hlt =>
      intro h
      cases h
      rw [toNat?_eq_some_iff.1 hn, UInt16.toNat_ofNat_of_lt' hlt]
    | case2 => exact nofun
    | case3 => exact nofun
  · rintro rfl
    exact toWord?_ofNat w

/-- A truth value is read from just that value. -/
lemma toBool?_eq_some_iff {j : Json} {b : Bool} : j.toBool? = some b ↔ j = .bool b := by
  cases j <;> simp [toBool?]

/-- A name is read from just the values that stand for it. -/
lemma toName?_eq_some_iff {j : Json} {s : String} : j.toName? = some s ↔ j.Names s := by
  fun_cases toName? j with
  | case1 t => simp [Names]
  | case2 t => simp [Names]
  | case3 j hstring hobject =>
    refine ⟨nofun, ?_⟩
    rintro (rfl | rfl)
    · exact absurd rfl (hstring s)
    · exact absurd rfl (hobject s)

/-- If names are distinct, looking up a name finds its field. -/
lemma lookup_eq_some_iff {fields : List (String × Json)} (h : (fields.map Prod.fst).Nodup)
    (name : String) (v : Json) : fields.lookup name = some v ↔ (name, v) ∈ fields := by
  induction fields with
  | nil => simp
  | cons field fields ih =>
    obtain ⟨key, w⟩ := field
    rw [List.map_cons, List.nodup_cons] at h
    by_cases hkey : name = key
    · subst hkey
      have habsent : (name, v) ∉ fields := fun hmem => h.1 (List.mem_map.2 ⟨_, hmem, rfl⟩)
      simp [habsent, eq_comm]
    · simp [List.lookup_cons, beq_eq_false_iff_ne.2 hkey, ih h.2, hkey]

/-- Looking up a name among distinct ones finds the value in the same place. -/
lemma lookup_zip {names : List String} (hnames : names.Nodup) {items : List Json}
    (hlength : items.length = names.length) :
    ∀ field ∈ names.zip items, (names.zip items).lookup field.1 = some field.2 := by
  have hdistinct : ((names.zip items).map Prod.fst).Nodup := by
    rw [List.map_fst_zip (Nat.le_of_eq hlength.symm)]
    exact hnames
  exact fun field hfield => (lookup_eq_some_iff hdistinct _ _).2 hfield

end Json

/-- The codec of JSON values is lawful. -/
lemma Codec.json_lawful : json.Lawful where
  ofByte_eq _ := rfl
  ofWord_eq _ := rfl
  ofBool_eq _ := rfl
  ofVariant_eq _ := rfl
  ofRecord_eq _ := rfl
  toByte?_eq_some_iff := Json.toByte?_eq_some_iff
  toWord?_eq_some_iff := Json.toWord?_eq_some_iff
  toBool?_eq_some_iff := Json.toBool?_eq_some_iff
  toVariant?_eq_some_iff := by
    intro names j s
    simp only [json, Option.filter_eq_some_iff, Json.toName?_eq_some_iff, List.contains_iff_mem]
    exact and_comm
  toRecord?_object _ := ⟨_, rfl, fun _ _ => rfl⟩
  toRecord?_list hnames hlength := ⟨_, if_pos hlength, Json.lookup_zip hnames hlength⟩
  toRecord?_list_of_length_ne hlength := if_neg hlength
  toRecord?_of_not_isContainer := by
    intro names j hj
    cases j with
    | object fields => exact absurd (.inl ⟨fields, rfl⟩) hj
    | list items => exact absurd (.inr ⟨items, rfl⟩) hj
    | _ => rfl

/-! ## Records -/

/-- The record has fields of these names with these values.  An object has them among its fields, and a
list is that of the values, in the order of the names. -/
def Json.Gives (names : List String) (values : List Json) : Json → Prop
  | .object fields => ∀ field ∈ names.zip values, field ∈ fields
  | .list items => items = values
  | _ => False

namespace Codec.Lawful

variable {codec : Codec} (hcodec : codec.Lawful)
include hcodec

/-- A value gives fields just if the record that is read from it has them. -/
lemma gives_iff {j : Json} (hkeys : j.HasDistinctKeys) {names : List String} (hnames : names.Nodup)
    {values : List Json} (hvalues : values.length = names.length) :
    j.Gives names values ↔ ∃ record, codec.toRecord? names j = some record ∧
      ∀ field ∈ names.zip values, record field.1 = some field.2 := by
  cases j with
  | object fields =>
    obtain ⟨record, hread, hrecord⟩ : ∃ record, codec.toRecord? names (.object fields) = some record ∧ _ :=
      hcodec.toRecord?_object hkeys
    have hfound : ∀ field ∈ names.zip values, record field.1 = some field.2 ↔ field ∈ fields := by
      intro field hfield
      rw [hrecord _ (List.of_mem_zip hfield).1]
      exact Json.lookup_eq_some_iff hkeys _ _
    simp only [hread, Option.some.injEq, exists_eq_left', Json.Gives]
    exact forall₂_congr fun field hfield => (hfound field hfield).symm
  | list items =>
    by_cases hlength : items.length = names.length
    · obtain ⟨record, hread, hrecord⟩ := hcodec.toRecord?_list hnames hlength
      simp only [hread, Option.some.injEq, exists_eq_left', Json.Gives]
      constructor
      · rintro rfl
        exact hrecord
      · intro hgiven
        -- both lists hold what the record has under the name in the same place
        refine List.ext_getElem (hlength.trans hvalues.symm) fun i hi hi' => ?_
        have hname : i < names.length := hlength ▸ hi
        have hitem := hrecord (names[i], items[i]) (List.mem_iff_getElem.2 ⟨i, by simp [*], by simp⟩)
        have hvalue := hgiven (names[i], values[i]) (List.mem_iff_getElem.2 ⟨i, by simp [*], by simp⟩)
        exact Option.some.inj (hitem.symm.trans hvalue)
    · have hne : items ≠ values := by
        rintro rfl
        exact hlength hvalues
      simp [Json.Gives, hne, hcodec.toRecord?_list_of_length_ne hlength]
  | _ =>
    rw [hcodec.toRecord?_of_not_isContainer (by simp [Json.IsContainer])]
    simp [Json.Gives]

section Fields

variable {record : String → Option Json} {name : String}

/-- A field is read as a byte if it holds what the byte is written as. -/
lemma byteField?_eq_some_iff {v : UInt8} :
    codec.byteField? record name = some v ↔ record name = some (codec.ofByte v) := by
  simp [byteField?, Option.bind_eq_some_iff, hcodec.toByte?_eq_some_iff, hcodec.ofByte_eq]

/-- A field is read as a word if it holds what the word is written as. -/
lemma wordField?_eq_some_iff {w : UInt16} :
    codec.wordField? record name = some w ↔ record name = some (codec.ofWord w) := by
  simp [wordField?, Option.bind_eq_some_iff, hcodec.toWord?_eq_some_iff, hcodec.ofWord_eq]

/-- A field is read as a truth value if it holds what that value is written as. -/
lemma boolField?_eq_some_iff {b : Bool} :
    codec.boolField? record name = some b ↔ record name = some (codec.ofBool b) := by
  simp [boolField?, Option.bind_eq_some_iff, hcodec.toBool?_eq_some_iff, hcodec.ofBool_eq]

end Fields

/-- What gives its own fields, and nothing else, is the written form of a record. -/
lemma gives_ofRecord (names : List String) (values : List Json) :
    (codec.ofRecord (names.zip values)).Gives names values := by
  rw [hcodec.ofRecord_eq]
  exact fun _ h => h

/-- The written form of a record has distinct names. -/
lemma hasDistinctKeys_ofRecord {names : List String} (hnames : names.Nodup) {values : List Json}
    (hvalues : values.length = names.length) :
    (codec.ofRecord (names.zip values)).HasDistinctKeys := by
  rw [hcodec.ofRecord_eq, Json.HasDistinctKeys, List.map_fst_zip (Nat.le_of_eq hvalues.symm)]
  exact hnames

end Codec.Lawful

/-! ## Register files -/

section Decoding

variable {codec : Codec} (hcodec : codec.Lawful)
include hcodec

/-- A bank is read just if its fields are there. -/
lemma Bank.ofRecord?_eq_some_iff {record : String → Option Json} {suffix : String} {k : Bank} :
    ofRecord? codec record suffix = some k ↔
      ∀ field ∈ (fieldNames.map (· ++ suffix)).zip (k.fieldValues codec),
        record field.1 = some field.2 := by
  simp only [fieldNames, fieldValues, List.map_cons, List.map_nil, List.zip_cons_cons,
    List.zip_nil_left, List.forall_mem_cons, ← hcodec.byteField?_eq_some_iff]
  constructor
  · intro hread
    simp only [ofRecord?, Option.bind_eq_bind, Option.bind_eq_some_iff, Option.pure_def,
      Option.some.injEq] at hread
    obtain ⟨a, ha, f, hf, b, hb, c, hc, d, hd, e, he, h, hh, l, hl, rfl⟩ := hread
    rw [Flags.toByte_ofByte]
    exact ⟨ha, hf, hb, hc, hd, he, hh, hl, List.forall_mem_nil _⟩
  · rintro ⟨ha, hf, hb, hc, hd, he, hh, hl, -⟩
    simp only [ofRecord?, Option.bind_eq_bind, Option.bind_some, Option.pure_def, Flags.ofByte_toByte, *]

namespace Registers

/-- A register file is read from a record just if all its fields are there. -/
lemma ofRecord?_eq_some_iff {record : String → Option Json} {k : Registers} :
    ofRecord? codec record = some k ↔
      ∀ field ∈ fieldNames.zip (k.fieldValues codec), record field.1 = some field.2 := by
  have hfields : fieldNames.zip (k.fieldValues codec) =
      (Bank.fieldNames.map (· ++ "")).zip (k.toBank.fieldValues codec) ++
        ((Bank.fieldNames.map (· ++ "_alt")).zip (k.shadow.fieldValues codec) ++
          (fieldNames.drop 16).zip ((k.fieldValues codec).drop 16)) := rfl
  rw [hfields, List.forall_mem_append, List.forall_mem_append, ← Bank.ofRecord?_eq_some_iff hcodec,
    ← Bank.ofRecord?_eq_some_iff hcodec]
  simp only [fieldNames, fieldValues, Bank.fieldNames, Bank.fieldValues, List.map_cons, List.map_nil,
    List.cons_append, List.nil_append, List.drop, List.zip_cons_cons, List.zip_nil_left,
    List.forall_mem_cons, ← hcodec.byteField?_eq_some_iff, ← hcodec.wordField?_eq_some_iff,
    ← hcodec.boolField?_eq_some_iff]
  constructor
  · intro hread
    unfold ofRecord? at hread
    obtain ⟨main, hmain, hread⟩ := Option.bind_eq_some_iff.1 hread
    obtain ⟨shadow, hshadow, hread⟩ := Option.bind_eq_some_iff.1 hread
    obtain ⟨ix, hix, hread⟩ := Option.bind_eq_some_iff.1 hread
    obtain ⟨iy, hiy, hread⟩ := Option.bind_eq_some_iff.1 hread
    obtain ⟨sp, hsp, hread⟩ := Option.bind_eq_some_iff.1 hread
    obtain ⟨pc, hpc, hread⟩ := Option.bind_eq_some_iff.1 hread
    obtain ⟨i, hi, hread⟩ := Option.bind_eq_some_iff.1 hread
    obtain ⟨r, hr, hread⟩ := Option.bind_eq_some_iff.1 hread
    obtain ⟨wz, hwz, hread⟩ := Option.bind_eq_some_iff.1 hread
    obtain ⟨iff1, hiff1, hread⟩ := Option.bind_eq_some_iff.1 hread
    obtain ⟨iff2, hiff2, hread⟩ := Option.bind_eq_some_iff.1 hread
    obtain ⟨im, him, hread⟩ := Option.bind_eq_some_iff.1 hread
    obtain ⟨halted, hhalted, hread⟩ := Option.bind_eq_some_iff.1 hread
    cases hread
    exact ⟨hmain, hshadow, hix, hiy, hsp, hpc, hi, hr, hwz, hiff1, hiff2, him, hhalted,
      List.forall_mem_nil _⟩
  · rintro ⟨hmain, hshadow, hix, hiy, hsp, hpc, hi, hr, hwz, hiff1, hiff2, him, hhalted, -⟩
    simp only [ofRecord?, Option.bind_eq_bind, Option.bind_some, Option.pure_def, *]

omit hcodec in
/-- The fields of a register file have different names. -/
lemma nodup_fieldNames : fieldNames.Nodup := by
  decide

omit hcodec in
example : fieldNames =
    ["a", "f", "b", "c", "d", "e", "h", "l",
      "a_alt", "f_alt", "b_alt", "c_alt", "d_alt", "e_alt", "h_alt", "l_alt",
      "ix", "iy", "sp", "pc", "i", "r", "wz", "iff1", "iff2", "im", "halted"] :=
  rfl

/-- Just the register file is read from a value whose fields the value gives. -/
lemma decode?_eq_some_iff {j : Json} (hkeys : j.HasDistinctKeys) {k : Registers} :
    decode? codec j = some k ↔ j.Gives fieldNames (k.fieldValues codec) := by
  rw [hcodec.gives_iff hkeys nodup_fieldNames rfl, decode?, Option.bind_eq_some_iff]
  simp only [ofRecord?_eq_some_iff hcodec]

/-- The written form of a register file is read back. -/
lemma decode?_encode (k : Registers) : decode? codec (k.encode codec) = some k := by
  have hkeys : (k.encode codec).HasDistinctKeys := hcodec.hasDistinctKeys_ofRecord nodup_fieldNames rfl
  exact (decode?_eq_some_iff hcodec hkeys).2 (hcodec.gives_ofRecord _ _)

end Registers

/-! ## Configurations -/

omit hcodec in
/-- A revision is found by just its name. -/
lemma Revision.ofName?_eq_some_iff {s : String} {k : Revision} : ofName? s = some k ↔ s = k.name := by
  constructor
  · fun_cases ofName? s with
    | case1 hs =>
      intro h
      cases h
      exact hs
    | case2 _ hs =>
      intro h
      cases h
      exact hs
    | case3 => exact nofun
  · rintro rfl
    exact ofName?_name k

omit hcodec in
/-- Every revision has one of the names. -/
lemma Revision.name_mem_names (k : Revision) : k.name ∈ names := by
  cases k <;> simp [names]

namespace Config

omit hcodec in
/-- The fields of a configuration have different names. -/
lemma nodup_fieldNames : fieldNames.Nodup := by
  decide

/-- A configuration is read from a record just if its fields are there. -/
lemma ofRecord?_eq_some_iff {record : String → Option Json} {c : Config} :
    ofRecord? codec record = some c ↔ ∃ v, v.Names c.revision.name ∧
      ∀ field ∈ fieldNames.zip [v, codec.ofByte c.interruptByte], record field.1 = some field.2 := by
  simp only [fieldNames, List.zip_cons_cons, List.zip_nil_left, List.forall_mem_cons,
    ← hcodec.byteField?_eq_some_iff]
  constructor
  · intro hread
    unfold ofRecord? at hread
    obtain ⟨name, hname, hread⟩ := Option.bind_eq_some_iff.1 hread
    obtain ⟨revision, hrevision, hread⟩ := Option.bind_eq_some_iff.1 hread
    obtain ⟨interruptByte, hbyte, hread⟩ := Option.bind_eq_some_iff.1 hread
    cases hread
    obtain ⟨v, hv, hname⟩ := Option.bind_eq_some_iff.1 hname
    rw [Revision.ofName?_eq_some_iff.1 hrevision] at hname
    exact ⟨v, (hcodec.toVariant?_eq_some_iff.1 hname).2, hv, hbyte, List.forall_mem_nil _⟩
  · rintro ⟨v, hname, hv, hbyte, -⟩
    have hvariant : codec.toVariant? Revision.names v = some c.revision.name :=
      hcodec.toVariant?_eq_some_iff.2 ⟨c.revision.name_mem_names, hname⟩
    simp [ofRecord?, hv, hbyte, hvariant]

/-- Just the configuration is read from a value whose fields the value gives. -/
lemma decode?_eq_some_iff {j : Json} (hkeys : j.HasDistinctKeys) {c : Config} :
    decode? codec j = some c ↔ ∃ v, v.Names c.revision.name ∧
      j.Gives fieldNames [v, codec.ofByte c.interruptByte] := by
  simp only [decode?, Option.bind_eq_some_iff, ofRecord?_eq_some_iff hcodec]
  constructor
  · rintro ⟨record, hrecord, v, hname, hfields⟩
    exact ⟨v, hname, (hcodec.gives_iff hkeys nodup_fieldNames rfl).2 ⟨record, hrecord, hfields⟩⟩
  · rintro ⟨v, hname, hgives⟩
    obtain ⟨record, hrecord, hfields⟩ := (hcodec.gives_iff hkeys nodup_fieldNames rfl).1 hgives
    exact ⟨record, hrecord, v, hname, hfields⟩

/-- The written form of a configuration is read back. -/
lemma decode?_encode (c : Config) : decode? codec (c.encode codec) = some c := by
  have hkeys : (c.encode codec).HasDistinctKeys := hcodec.hasDistinctKeys_ofRecord nodup_fieldNames rfl
  have hname : (codec.ofVariant c.revision.name).Names c.revision.name :=
    .inl (hcodec.ofVariant_eq _)
  exact (decode?_eq_some_iff hcodec hkeys).2 ⟨_, hname, hcodec.gives_ofRecord _ _⟩

end Config

end Decoding

end Z80

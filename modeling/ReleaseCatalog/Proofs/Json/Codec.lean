import ReleaseCatalog.Json.Record
import ReleaseCatalog.Proofs.Json.RoundTrip

namespace ReleaseCatalog.Json

variable {α : Type} {write : α → Json} {read : Json → Option α}

/-- What `write` writes, `read` takes for the value that was written, also as text. -/
structure IsCodec (write : α → Json) (read : Json → Option α) : Prop where
  isPlain : ∀ a, (write a).IsPlain
  ne_null : ∀ a, write a ≠ .null
  read_write : ∀ a, read (write a) = some a

theorem isCodec_text : IsCodec text text? where
  isPlain _ := trivial
  ne_null _ := Json.noConfusion
  read_write _ := rfl

theorem toNat?_ofNat (n : Nat) : (Numeral.ofNat n).toNat? = some n := by
  simp [Numeral.toNat?, Numeral.ofNat, Nat.ofDigitChars_ten_toDigits]

theorem isCodec_word32 : IsCodec (fun n : UInt32 => nat n.toNat) word32? where
  isPlain n := ⟨n.toNat, rfl⟩
  ne_null _ := Json.noConfusion
  read_write n := by
    simp [nat, word32?, toNat?_ofNat, n.toNat_lt_size]

theorem isCodec_word64 : IsCodec (fun n : UInt64 => nat n.toNat) word64? where
  isPlain n := ⟨n.toNat, rfl⟩
  ne_null _ := Json.noConfusion
  read_write n := by
    simp [nat, word64?, toNat?_ofNat, n.toNat_lt_size]

namespace IsCodec

theorem required (h : IsCodec write read) (a : α) : Json.required read (some (write a)) = some a :=
  h.read_write a

theorem optional (h : IsCodec write read) (value : Option α) :
    Json.optional read (value.map write) = some value := by
  cases value with
  | none => rfl
  | some a =>
    rw [Option.map_some, Json.optional, h.read_write, Option.map_some]
    exact h.ne_null a

theorem defaulted (h : IsCodec write read) (standard a : α) :
    Json.defaulted standard read (some (write a)) = some a :=
  h.read_write a

theorem mapM_read (h : IsCodec write read) (as : List α) : (as.map write).mapM read = some as := by
  induction as with
  | nil => rfl
  | cons a as ih => simp [h.read_write a, ih]

theorem allPlain (h : IsCodec write read) (as : List α) : AllPlain (as.map write) := by
  induction as with
  | nil => trivial
  | cons a as ih => exact ⟨h.isPlain a, ih⟩

theorem list (h : IsCodec write read) :
    IsCodec (fun as : List α => .array (as.map write)) (list? read) where
  isPlain := h.allPlain
  ne_null _ := Json.noConfusion
  read_write := h.mapM_read

theorem parse?_print (h : IsCodec write read) (a : α) :
    (Json.parse? (write a).print).bind read = some a := by
  rw [Json.parse?_print (h.isPlain a), Option.bind_some, h.read_write]

end IsCodec

theorem record_eq (members : List (String × Json)) :
    record members = .object (members.map fun m => (some m.1, m.2)) := rfl

theorem record_ne_null (members : List (String × Json)) : record members ≠ .null :=
  Json.noConfusion

/-- A record under construction whose values all have a property. -/
def FieldsAll (P : Json → Prop) (members : List (String × Json)) : Prop := ∀ m ∈ members, P m.2

section Fields

variable {P : Json → Prop} {name : String} {members : List (String × Json)}

@[simp] theorem fieldsAll_nil : FieldsAll P [] := by
  intro m h
  cases h

@[simp] theorem fieldsAll_cons {x : Json} :
    FieldsAll P ((name, x) :: members) ↔ P x ∧ FieldsAll P members :=
  List.forall_mem_cons

theorem fieldsAll_append {ms ns : List (String × Json)} :
    FieldsAll P (ms ++ ns) ↔ FieldsAll P ms ∧ FieldsAll P ns :=
  List.forall_mem_append

theorem fieldsAll_ifPresent (h : ∀ a, P (write a)) (value : Option α) :
    FieldsAll P (ifPresent name write value) := by
  cases value with
  | none => exact fieldsAll_nil
  | some a => exact fieldsAll_cons.2 ⟨h a, fieldsAll_nil⟩

end Fields

theorem isPlain_record {members : List (String × Json)} :
    (record members).IsPlain ↔ FieldsAll IsPlain members := by
  rw [record_eq]
  induction members with
  | nil => simp [IsPlain, AllMembersPlain]
  | cons m ms ih =>
    rw [fieldsAll_cons, ← ih]
    rfl

theorem ifPresent_names_sublist (name : String) (write : α → Json) (value : Option α) :
    ((ifPresent name write value).map (·.1)).Sublist [name] := by
  cases value <;> simp [ifPresent]

theorem lookup_ifPresent (name other : String) (write : α → Json) (value : Option α) :
    (ifPresent name write value).lookup other =
      if other = name then value.map write else none := by
  cases value with
  | none => simp [ifPresent]
  | some a =>
    by_cases h : other = name
    · subst h
      simp [ifPresent]
    · have hne : (other == name) = false := beq_eq_false_iff_ne.2 h
      simp [ifPresent, h, List.lookup_cons, hne]

theorem lookup_members (members : List (String × Json)) (name : String) :
    (members.map fun m => (some m.1, m.2)).lookup (some name) = members.lookup name := by
  induction members with
  | nil => rfl
  | cons m ms ih =>
    obtain ⟨other, value⟩ := m
    rw [List.map_cons, List.lookup_cons, List.lookup_cons, ih]
    rfl

/-- The names of the members of an object. -/
def names : Json → List String
  | object ms => ms.filterMap (·.1)
  | _ => []

theorem names_record (members : List (String × Json)) :
    (record members).names = members.map (·.1) := by
  rw [record_eq, names, List.filterMap_map, ← List.filterMap_eq_map]
  rfl

/-- A record that is written field by field has for each field what was given under its name. -/
theorem fields?_record {members : List (String × Json)} {names : List String}
    (h : (record members).names.Sublist names) (hnames : names.Nodup) :
    (record members).fields? names = some (names.map (List.lookup · members)) := by
  rw [names_record] at h
  have hsome : (members.map fun m => (some m.1, m.2)).all (·.1.isSome) = true := by
    simp
  have honce (name : String) :
      (members.map fun m => (some m.1, m.2)).countP (·.1 == some name) ≤ 1 := by
    have hcount := List.nodup_iff_count.1 (hnames.sublist h) name
    rw [List.count_eq_countP, List.countP_map] at hcount
    rw [List.countP_map]
    exact hcount
  rw [record_eq, fields?, if_pos]
  · simp only [lookup_members]
  · rw [hsome, Bool.true_and, List.all_eq_true]
    exact fun name _ => decide_eq_true (honce name)

end ReleaseCatalog.Json

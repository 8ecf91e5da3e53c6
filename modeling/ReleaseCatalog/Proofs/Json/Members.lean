import ReleaseCatalog.Proofs.Json.Codec
import ReleaseCatalog.Proofs.Json.Whole

namespace ReleaseCatalog.Json

/-- The document without the members of a name. -/
def without (name : String) : Json → Json
  | object ms => object (ms.filter (·.1 != some name))
  | x => x

/-- The object with one more member, in front of the others. -/
def withMember (x : Json) (name : String) (value : Json) : Json :=
  match x with
  | object ms => object ((some name, value) :: ms)
  | x => x

variable {x : Json} {name other : String}

theorem lookup_filter_fst {κ α : Type} [BEq κ] [LawfulBEq κ] (k : κ) (p : κ → Bool)
    (ms : List (κ × α)) :
    (ms.filter fun m => p m.1).lookup k = if p k then ms.lookup k else none := by
  induction ms with
  | nil => simp
  | cons m ms ih =>
    obtain ⟨l, a⟩ := m
    by_cases hkl : k = l
    · subst hkl
      by_cases hp : p k = true
      · simp [hp]
      · simp [hp, ih]
    · have hne : (k == l) = false := beq_eq_false_iff_ne.2 hkl
      by_cases hp : p l = true <;> simp [List.lookup_cons, hp, hne, ih]

theorem member?_without (other name : String) (x : Json) :
    (x.without name).member? other = if other = name then none else x.member? other := by
  cases x with
  | object ms =>
    rw [without, member?, member?, lookup_filter_fst (some other) (· != some name)]
    simp
  | _ => simp [without, member?]

theorem allMembersPlain_iff {ms : List (Option String × Json)} :
    AllMembersPlain ms ↔ ∀ m ∈ ms, m.2.IsPlain := by
  induction ms with
  | nil => simp [AllMembersPlain]
  | cons m ms ih =>
    rw [List.forall_mem_cons, ← ih]
    rfl

theorem IsPlain.without (h : x.IsPlain) (name : String) : (x.without name).IsPlain := by
  cases x with
  | object ms =>
    have hms := allMembersPlain_iff.1 h
    exact allMembersPlain_iff.2 fun m hm => hms m (List.mem_filter.1 hm).1
  | _ => exact h

theorem IsKept.without {d : Nat} (h : IsKept d x) (name : String) :
    IsKept d (x.without name) := by
  cases x with
  | object ms =>
    cases d with
    | zero => exact absurd h.depth_le (Nat.not_succ_le_zero _)
    | succ d =>
      obtain ⟨hmembers, hnames⟩ := isKept_object_iff.1 h
      exact isKept_object_iff.2
        ⟨fun m hm => hmembers m (List.mem_filter.1 hm).1, hnames.filter _⟩
  | _ => exact h

theorem fields?_middle {before after : List (String × Json)} {value : Json}
    (h : name ∉ before.map (·.1)) (names : List String) :
    (record (before ++ (name, value) :: after)).fields? names =
      (record ((name, value) :: (before ++ after))).fields? names := by
  have hmiddle : (before ++ (name, value) :: after).Perm ((name, value) :: (before ++ after)) :=
    List.perm_middle
  have hperm := hmiddle.map fun m : String × Json => ((some m.1, m.2) : Option String × Json)
  have hnone : before.lookup name = none := by
    rw [List.lookup_eq_none_iff]
    intro m hm
    exact bne_iff_ne.2 fun he => h (he ▸ List.mem_map_of_mem hm)
  have hlookup (other : String) : (before ++ (name, value) :: after).lookup other =
      ((name, value) :: (before ++ after)).lookup other := by
    rw [List.lookup_append, List.lookup_cons, List.lookup_cons, List.lookup_append]
    by_cases hother : other = name
    · simp [hother, hnone]
    · simp [beq_eq_false_iff_ne.2 hother]
  simp only [record_eq, fields?, hperm.all_eq, hperm.countP_eq, lookup_members, hlookup]

theorem without_record {before after : List (String × Json)} {value : Json}
    (h : name ∉ (before ++ after).map (·.1)) :
    (record (before ++ (name, value) :: after)).without name = record (before ++ after) := by
  have hother : (before ++ after).filter (·.1 != name) = before ++ after := by
    rw [List.filter_eq_self]
    intro m hm
    exact bne_iff_ne.2 fun he => h (he ▸ List.mem_map_of_mem hm)
  have hfilter : (before ++ (name, value) :: after).filter (·.1 != name) = before ++ after := by
    rw [List.filter_append, List.filter_cons_of_neg (by simp), ← List.filter_append, hother]
  rw [record_eq, record_eq, without, List.filter_map, ← hfilter]
  rfl

/-- A member that is left out and put in anew is read as if it had been written there. -/
theorem fields?_withMember_without {before after : List (String × Json)} {old value : Json}
    (h : name ∉ (before ++ after).map (·.1)) (names : List String) :
    (((record (before ++ (name, old) :: after)).without name).withMember name value).fields? names =
      (record (before ++ (name, value) :: after)).fields? names := by
  have hbefore : name ∉ before.map (·.1) := by
    rw [List.map_append] at h
    exact fun hmem => h (List.mem_append_left _ hmem)
  rw [without_record h, fields?_middle hbefore]
  rfl

end ReleaseCatalog.Json

import ReleaseCatalog.Proofs.Json.Codec

namespace ReleaseCatalog.Json

/-- A document that is kept as it stands, and whose values lie no deeper than a bound. -/
structure IsKept (d : Nat) (x : Json) : Prop where
  isSound : x.isSound = true
  depth_le : x.depth ≤ d
  lastWins_eq : x.lastWins = x

theorem IsKept.parseWhole? {s : String} {d : Nat} {x : Json} (h : IsKept d x)
    (hd : d ≤ depthLimit) (hx : parse? s = some x) : Json.parseWhole? s = some x := by
  have hdepth : x.depth ≤ depthLimit := Nat.le_trans h.depth_le hd
  simp [Json.parseWhole?, hx, h.isSound, hdepth, h.lastWins_eq]

theorem isKept_text (d : Nat) (s : String) : IsKept d (text s) where
  isSound := rfl
  depth_le := Nat.zero_le d
  lastWins_eq := rfl

theorem le_ofDigitChars (cs : List Char) (n : Nat) : n ≤ Nat.ofDigitChars 10 cs n := by
  induction cs generalizing n with
  | nil => exact Nat.le_refl n
  | cons c cs ih =>
    rw [Nat.ofDigitChars_cons]
    have hrest := ih (10 * n + (c.toNat - '0'.toNat))
    omega

theorem gather_eq {cs : List Char} {n : Nat} (h : Nat.ofDigitChars 10 cs n < UInt64.size) :
    Numeral.gather n cs = (Nat.ofDigitChars 10 cs n, []) := by
  induction cs generalizing n with
  | nil => rfl
  | cons c cs ih =>
    rw [Nat.ofDigitChars_cons] at h ⊢
    rw [Numeral.gather, if_pos (Nat.lt_of_le_of_lt (le_ofDigitChars cs _) h), ih h]

theorem isHuge_ofNat {n : Nat} (h : n < UInt64.size) : (Numeral.ofNat n).isHuge = false := by
  have hdigits := Nat.ofDigitChars_ten_toDigits (n := n)
  have hgather : Numeral.gather 0 (Nat.toDigits 10 n) = (n, []) := by
    rw [gather_eq (by rw [hdigits]; exact h), hdigits]
  have hsignificand : (Numeral.ofNat n).significand = (n, 0) := by
    simp [Numeral.significand, Numeral.ofNat, hgather, Numeral.gather]
  simp [Numeral.isHuge, hsignificand]

theorem isKept_nat (d : Nat) {n : Nat} (h : n < UInt64.size) : IsKept d (nat n) where
  isSound := by
    rw [nat, isSound, isHuge_ofNat h]
    rfl
  depth_le := Nat.zero_le d
  lastWins_eq := rfl

theorem isKept_word64 (d : Nat) (n : UInt64) : IsKept d (nat n.toNat) :=
  isKept_nat d n.toNat_lt_size

theorem isKept_word32 (d : Nat) (n : UInt32) : IsKept d (nat n.toNat) :=
  isKept_nat d (Nat.lt_trans n.toNat_lt_size (by decide))

theorem allSound_eq_true {xs : List Json} (h : ∀ x ∈ xs, x.isSound = true) :
    allSound xs = true := by
  induction xs with
  | nil => rfl
  | cons x xs ih =>
    obtain ⟨hx, hxs⟩ := List.forall_mem_cons.1 h
    rw [allSound, hx, ih hxs]
    rfl

theorem depthOfAll_le {d : Nat} {xs : List Json} (h : ∀ x ∈ xs, x.depth ≤ d) :
    depthOfAll xs ≤ d := by
  induction xs with
  | nil => exact Nat.zero_le d
  | cons x xs ih =>
    obtain ⟨hx, hxs⟩ := List.forall_mem_cons.1 h
    exact Nat.max_le.2 ⟨hx, ih hxs⟩

theorem lastWinsAll_eq {xs : List Json} (h : ∀ x ∈ xs, x.lastWins = x) : lastWinsAll xs = xs := by
  induction xs with
  | nil => rfl
  | cons x xs ih =>
    obtain ⟨hx, hxs⟩ := List.forall_mem_cons.1 h
    rw [lastWinsAll, hx, ih hxs]

theorem isKept_array {d : Nat} {xs : List Json} (h : ∀ x ∈ xs, IsKept d x) :
    IsKept (d + 1) (array xs) where
  isSound := allSound_eq_true fun x hx => (h x hx).isSound
  depth_le := Nat.succ_le_succ (depthOfAll_le fun x hx => (h x hx).depth_le)
  lastWins_eq := by rw [lastWins, lastWinsAll_eq fun x hx => (h x hx).lastWins_eq]

section Members

variable {d : Nat} {ms : List (Option String × Json)}

theorem allMembersSound_iff :
    allMembersSound ms = true ↔ ∀ m ∈ ms, m.1.isSome = true ∧ m.2.isSound = true := by
  induction ms with
  | nil => simp [allMembersSound]
  | cons m ms ih => rw [List.forall_mem_cons, ← ih, ← Bool.and_eq_true, ← Bool.and_eq_true]; rfl

theorem depthOfMembers_le_iff : depthOfMembers ms ≤ d ↔ ∀ m ∈ ms, m.2.depth ≤ d := by
  induction ms with
  | nil => simp [depthOfMembers]
  | cons m ms ih => rw [List.forall_mem_cons, ← ih, ← Nat.max_le]; rfl

theorem length_lastWinsMembers_le (ms : List (Option String × Json)) :
    (lastWinsMembers ms).length ≤ ms.length := by
  induction ms with
  | nil => exact Nat.le_refl _
  | cons m ms ih =>
    rw [lastWinsMembers]
    split
    · exact Nat.le_succ_of_le ih
    · exact Nat.succ_le_succ ih

theorem lastWinsMembers_eq_iff :
    lastWinsMembers ms = ms ↔
      (∀ m ∈ ms, m.2.lastWins = m.2) ∧ ms.Pairwise fun m n => m.1 ≠ n.1 := by
  induction ms with
  | nil => simp [lastWinsMembers]
  | cons m ms ih =>
    obtain ⟨name, x⟩ := m
    rw [List.forall_mem_cons, List.pairwise_cons, lastWinsMembers]
    constructor
    · intro h
      split at h
      · have hlength := length_lastWinsMembers_le ms
        rw [h, List.length_cons] at hlength
        omega
      · next hnew =>
        obtain ⟨hm, hms⟩ := List.cons.inj h
        rw [hms] at hnew
        obtain ⟨hvalues, hnames⟩ := ih.1 hms
        have hne : ∀ n ∈ ms, name ≠ n.1 := fun n hn he =>
          hnew (List.any_eq_true.2 ⟨n, hn, beq_iff_eq.2 he.symm⟩)
        exact ⟨⟨congrArg Prod.snd hm, hvalues⟩, hne, hnames⟩
    · rintro ⟨⟨hvalue, hvalues⟩, hne, hnames⟩
      have hx : x.lastWins = x := hvalue
      have hnew : ¬ ms.any (·.1 == name) = true := by
        rw [List.any_eq_true]
        rintro ⟨n, hn, he⟩
        exact hne n hn (beq_iff_eq.1 he).symm
      simp only [ih.2 ⟨hvalues, hnames⟩, if_neg hnew, hx]

/-- An object is kept as it stands if its names are texts of which no two are the same, and its
values are kept. -/
theorem isKept_object_iff :
    IsKept (d + 1) (object ms) ↔
      (∀ m ∈ ms, m.1.isSome = true ∧ IsKept d m.2) ∧ ms.Pairwise fun m n => m.1 ≠ n.1 := by
  constructor
  · rintro ⟨hsound, hdepth, hlast⟩
    rw [lastWins, object.injEq, lastWinsMembers_eq_iff] at hlast
    have hsound' := allMembersSound_iff.1 hsound
    have hdepth' := depthOfMembers_le_iff.1 (Nat.le_of_succ_le_succ hdepth)
    refine ⟨fun m hm => ⟨(hsound' m hm).1, (hsound' m hm).2, hdepth' m hm, hlast.1 m hm⟩, hlast.2⟩
  · rintro ⟨hmembers, hnames⟩
    refine ⟨allMembersSound_iff.2 fun m hm => ⟨(hmembers m hm).1, (hmembers m hm).2.isSound⟩,
      Nat.succ_le_succ (depthOfMembers_le_iff.2 fun m hm => (hmembers m hm).2.depth_le), ?_⟩
    rw [lastWins, lastWinsMembers_eq_iff.2 ⟨fun m hm => (hmembers m hm).2.lastWins_eq, hnames⟩]

theorem isKept_record {members : List (String × Json)} {names : List String}
    (hsub : (record members).names.Sublist names) (hnames : names.Nodup)
    (h : FieldsAll (IsKept d) members) : IsKept (d + 1) (record members) := by
  have hnodup := hnames.sublist hsub
  rw [names_record] at hnodup
  rw [record_eq, isKept_object_iff, List.forall_mem_map]
  refine ⟨fun m hm => ⟨rfl, h m hm⟩, List.pairwise_map.2 ?_⟩
  exact (List.pairwise_map.1 hnodup).imp fun hne he => hne (Option.some.inj he)

end Members

end ReleaseCatalog.Json

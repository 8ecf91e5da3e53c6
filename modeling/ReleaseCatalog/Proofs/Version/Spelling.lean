import ReleaseCatalog.Version.Family

namespace ReleaseCatalog

/-- A word that is read as a number: digits of ASCII, and a value that fits into 32 bits. -/
def IsNumeral (w : List Char) : Prop :=
  (∀ c ∈ w, Text.isAsciiDigit c = true) ∧ Nat.ofDigitChars 10 w 0 < UInt32.size

def numeralValue (w : List Char) : UInt32 := UInt32.ofNat (Nat.ofDigitChars 10 w 0)

theorem number?_eq_some_iff {w : List Char} {n : UInt32} :
    number? w = some n ↔ IsNumeral w ∧ n = numeralValue w := by
  have hread : (w.all Text.isAsciiDigit && Nat.ofDigitChars 10 w 0 < UInt32.size) = true ↔
      IsNumeral w := by
    rw [Bool.and_eq_true, List.all_eq_true, decide_eq_true_eq, IsNumeral]
  rw [number?]
  by_cases hw : IsNumeral w
  · rw [if_pos (hread.2 hw), Option.some.injEq]
    exact ⟨fun h => ⟨hw, h.symm⟩, fun h => h.2.symm⟩
  · rw [if_neg (mt hread.1 hw)]
    constructor
    · intro h
      cases h
    · rintro ⟨h, -⟩
      exact absurd h hw

theorem optionalNumber?_eq_some_iff {w : Option (List Char)} {x : Option UInt32} :
    optionalNumber? w = some x ↔ (∀ v ∈ w, IsNumeral v) ∧ x = w.map numeralValue := by
  cases w with
  | none => simp [optionalNumber?, eq_comm]
  | some v =>
    rw [optionalNumber?, Option.map_eq_some_iff]
    constructor
    · rintro ⟨n, hn, rfl⟩
      obtain ⟨hv, rfl⟩ := number?_eq_some_iff.1 hn
      exact ⟨fun _ h => Option.some.inj h ▸ hv, rfl⟩
    · rintro ⟨hv, rfl⟩
      exact ⟨_, number?_eq_some_iff.2 ⟨hv v rfl, rfl⟩, rfl⟩

namespace Spelling

/-- The words that stand for numbers. -/
def numerals (sp : Spelling) : List (List Char) :=
  sp.major :: (sp.minor.toList ++ sp.security.toList ++ sp.patch.toList ++ sp.build.toList ++
    sp.additional.toList)

def IsReadable (sp : Spelling) : Prop := ∀ w ∈ sp.numerals, IsNumeral w

/-- The parts of a version that the words stand for; a missing number is zero or none at all. -/
def components (sp : Spelling) : Components where
  major := numeralValue sp.major
  minor := (sp.minor.map numeralValue).getD 0
  security := (sp.security.map numeralValue).getD 0
  pre := sp.pre.map String.ofList
  patch := sp.patch.map numeralValue
  build := (sp.build.map numeralValue).getD 0
  additional := sp.additional.map numeralValue
  optional := sp.optional.map String.ofList

theorem isReadable_iff {sp : Spelling} :
    sp.IsReadable ↔ IsNumeral sp.major ∧ (∀ w ∈ sp.minor, IsNumeral w) ∧
      (∀ w ∈ sp.security, IsNumeral w) ∧ (∀ w ∈ sp.patch, IsNumeral w) ∧
        (∀ w ∈ sp.build, IsNumeral w) ∧ ∀ w ∈ sp.additional, IsNumeral w := by
  simp only [IsReadable, numerals, List.mem_cons, List.mem_append, Option.mem_toList,
    Option.mem_def, or_imp, forall_and, forall_eq, and_assoc]

/-- A spelling whose numbers can be read spells the version of its parts, and no other spells
one. -/
theorem version?_eq_some_iff {sp : Spelling} {v : Version} :
    sp.version? = some v ↔ sp.IsReadable ∧ v = sp.components.version := by
  simp only [version?, Option.bind_eq_bind, Option.bind_eq_some_iff, number?_eq_some_iff,
    optionalNumber?_eq_some_iff, isReadable_iff]
  constructor
  · rintro ⟨_, ⟨hmajor, rfl⟩, _, ⟨hminor, rfl⟩, _, ⟨hsecurity, rfl⟩, _, ⟨hpatch, rfl⟩,
      _, ⟨hbuild, rfl⟩, _, ⟨hadditional, rfl⟩, hv⟩
    exact ⟨⟨hmajor, hminor, hsecurity, hpatch, hbuild, hadditional⟩, (Option.some.inj hv).symm⟩
  · rintro ⟨⟨hmajor, hminor, hsecurity, hpatch, hbuild, hadditional⟩, rfl⟩
    exact ⟨_, ⟨hmajor, rfl⟩, _, ⟨hminor, rfl⟩, _, ⟨hsecurity, rfl⟩, _, ⟨hpatch, rfl⟩,
      _, ⟨hbuild, rfl⟩, _, ⟨hadditional, rfl⟩, rfl⟩

end Spelling

end ReleaseCatalog

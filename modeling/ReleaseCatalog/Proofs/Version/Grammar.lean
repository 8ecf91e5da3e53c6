import ReleaseCatalog.Proofs.Text.Blank
import ReleaseCatalog.Proofs.Version.Spelling

namespace ReleaseCatalog

open Text (isDigit isDigit_of_isAsciiDigit)

/-- A number as names write it: digits of ASCII, and a value that fits into 32 bits. -/
structure Decimal where
  digits : List Char
  ne_nil : digits ≠ []
  isAsciiDigit : ∀ c ∈ digits, Text.isAsciiDigit c = true
  fits : Nat.ofDigitChars 10 digits 0 < UInt32.size

namespace Decimal

def value (m : Decimal) : UInt32 := UInt32.ofNat (Nat.ofDigitChars 10 m.digits 0)

theorem isDigit (m : Decimal) {c : Char} (h : c ∈ m.digits) : Text.isDigit c = true :=
  isDigit_of_isAsciiDigit (m.isAsciiDigit c h)

theorem isDigit_head? (m : Decimal) (s : List Char) :
    ∀ c ∈ (m.digits ++ s).head?, Text.isDigit c = true := by
  intro c hc
  rw [List.head?_append_of_ne_nil _ m.ne_nil] at hc
  exact m.isDigit (List.mem_of_head? hc)

theorem isNumeral (m : Decimal) : IsNumeral m.digits :=
  ⟨m.isAsciiDigit, m.fits⟩

theorem exists_of_isNumeral {w : List Char} (hne : w ≠ []) (h : IsNumeral w) :
    ∃ m : Decimal, m.digits = w :=
  ⟨⟨w, hne, h.1, h.2⟩, rfl⟩

/-- The number itself, without leading zeros. -/
def ofUInt32 (n : UInt32) : Decimal where
  digits := decimal n
  ne_nil := Nat.toDigits_ne_nil
  isAsciiDigit _ h := Text.isAsciiDigit_of_mem_toDigits h
  fits := by
    rw [decimal, Nat.ofDigitChars_ten_toDigits]
    exact n.toNat_lt

@[simp] theorem value_ofUInt32 (n : UInt32) : (ofUInt32 n).value = n := by
  simp [value, ofUInt32, decimal, Nat.ofDigitChars_ten_toDigits]

end Decimal

/-- A number whose first digit is no zero. -/
structure Leading extends Decimal where
  leads : ∀ c ∈ digits.head?, ('1' ≤ c && c ≤ '9') = true

theorem Leading.one_le_value (m : Leading) : 1 ≤ m.value := by
  have hfits := m.fits
  have hleads := m.leads
  rw [UInt32.le_iff_toNat_le, Decimal.value, UInt32.toNat_ofNat_of_lt' hfits]
  cases hm : m.digits with
  | nil => exact absurd hm m.ne_nil
  | cons c w =>
    have hc : ('1' ≤ c && c ≤ '9') = true := hleads c (by rw [hm]; rfl)
    have hcode : 49 ≤ c.toNat ∧ c.toNat ≤ 57 := by
      simpa [Char.le_def, UInt32.le_iff_toNat_le] using hc
    rw [Nat.ofDigitChars_cons, Nat.mul_zero, Nat.zero_add, Nat.ofDigitChars_eq_ofDigitChars_zero]
    have hdigit : 1 ≤ c.toNat - '0'.toNat := by
      show 1 ≤ c.toNat - 48
      omega
    have hpow := Nat.mul_le_mul (Nat.one_le_pow w.length 10 (by decide)) hdigit
    show 1 ≤ _
    omega

theorem leads_of_isAsciiDigit {c : Char} (h : Text.isAsciiDigit c = true) (hne : c ≠ '0') :
    ('1' ≤ c && c ≤ '9') = true := by
  have hcode : 48 ≤ c.toNat ∧ c.toNat ≤ 57 := by
    simpa [Text.isAsciiDigit, Char.le_def, UInt32.le_iff_toNat_le] using h
  have hne : c.toNat ≠ 48 := fun heq => hne (Char.toNat_inj.1 heq)
  have hleads : 49 ≤ c.toNat ∧ c.toNat ≤ 57 := by omega
  simpa [Char.le_def, UInt32.le_iff_toNat_le] using hleads

/-- The number itself, without leading zeros. -/
def Leading.ofUInt32 (n : UInt32) (h : 1 ≤ n) : Leading where
  toDecimal := .ofUInt32 n
  leads c hc := by
    have hpos : 0 < n.toNat := UInt32.le_iff_toNat_le.1 h
    obtain ⟨w, hw⟩ := List.head?_eq_some_iff.1 hc
    have hdigit := (Decimal.ofUInt32 n).isAsciiDigit c (List.mem_of_head? hc)
    exact leads_of_isAsciiDigit hdigit (Text.head_toDigits hpos hw)

/-- The product at the front of a name. -/
inductive Opening where
  | bare
  | jdk
  | hyphenated

def Opening.text : Opening → List Char
  | bare => []
  | jdk => ['j', 'd', 'k']
  | hyphenated => ['j', 'd', 'k', '-']

/-- A date and time of day, the year and four fields of two digits. -/
structure Stamp where
  year : List Char
  fields : List (List Char)
  length_year : year.length = 4
  length_fields : fields.length = 4
  length_field : ∀ w ∈ fields, w.length = 2
  isDigit_year : ∀ c ∈ year, isDigit c = true
  isDigit_field : ∀ w ∈ fields, ∀ c ∈ w, isDigit c = true

def Stamp.text (d : Stamp) : List Char := d.year ++ d.fields.flatMap fun w => '-' :: w

/-- A build number and what may follow it. -/
structure Build where
  number : Decimal
  additional : Option Decimal

def Build.text (mark : List Char) (b : Build) : List Char :=
  mark ++ (b.number.digits ++ b.additional.elim [] fun a => '.' :: a.digits)

/-- The numbers after the major one, none of them without those before it. -/
structure Numbers where
  minor : Option Decimal
  security : Option Decimal
  patch : Option Decimal
  minor_of_security : security.isSome → minor.isSome
  security_of_patch : patch.isSome → security.isSome

def dotted (m : Option Decimal) : List Char := m.elim [] fun m => '.' :: m.digits

def Numbers.text (ns : Numbers) : List Char :=
  dotted ns.minor ++ (dotted ns.security ++ dotted ns.patch)

/-- However three optional numbers are spread, they are written as some numbers without gaps. -/
theorem Numbers.exists_text_eq (a b c : Option Decimal) :
    ∃ ns : Numbers, ns.text = dotted a ++ (dotted b ++ dotted c) := by
  rcases a with _ | a <;> rcases b with _ | b <;> rcases c with _ | c
  · exact ⟨⟨none, none, none, by simp, by simp⟩, rfl⟩
  · exact ⟨⟨some c, none, none, by simp, by simp⟩, by simp [text, dotted]⟩
  · exact ⟨⟨some b, none, none, by simp, by simp⟩, by simp [text, dotted]⟩
  · exact ⟨⟨some b, some c, none, by simp, by simp⟩, by simp [text, dotted]⟩
  · exact ⟨⟨some a, none, none, by simp, by simp⟩, rfl⟩
  · exact ⟨⟨some a, some c, none, by simp, by simp⟩, by simp [text, dotted]⟩
  · exact ⟨⟨some a, some b, none, by simp, by simp⟩, rfl⟩
  · exact ⟨⟨some a, some b, some c, by simp, by simp⟩, rfl⟩

/-- A pre-release tag: a letter, and then letters and digits. -/
structure Tag where
  first : Char
  others : List Char
  isAlpha_first : first.isAlpha = true
  isAlphanum_others : ∀ c ∈ others, c.isAlphanum = true

def Tag.text (p : Tag) : List Char := p.first :: p.others

theorem Tag.isAlphanum (p : Tag) {c : Char} (h : c ∈ p.text) : c.isAlphanum = true := by
  rcases List.mem_cons.1 h with rfl | h
  · rw [Char.isAlphanum, p.isAlpha_first, Bool.true_or]
  · exact p.isAlphanum_others c h

def isSuffixChar (c : Char) : Bool := c.isAlphanum || c == '-' || c == '.'

/-- What may follow everything else in a version string. -/
structure Suffix where
  text : List Char
  ne_nil : text ≠ []
  isSuffixChar : ∀ c ∈ text, ReleaseCatalog.isSuffixChar c = true

theorem Suffix.exists_tag (x : Suffix) (h : ∀ c ∈ x.text.head?, c.isAlpha = true) :
    ∃ p : Tag, p.text = x.text.takeWhile Char.isAlphanum := by
  obtain ⟨c, s, hxt⟩ := List.exists_cons_of_ne_nil x.ne_nil
  have hc : c.isAlpha = true := h c (by rw [hxt]; rfl)
  have hc' : c.isAlphanum = true := by rw [Char.isAlphanum, hc, Bool.true_or]
  refine ⟨⟨c, s.takeWhile Char.isAlphanum, hc, List.all_eq_true.1 List.all_takeWhile⟩, ?_⟩
  rw [hxt, List.takeWhile_cons_of_pos hc']
  rfl

/-- A name as one of the families writes it. -/
inductive ReleaseName where
  | nightly (opening : Opening) (major : Leading) (marked : Bool) (date : Stamp)
  | legacy (line : Leading) (oneDigit : line.digits.length = 1) (security : Decimal)
      (build : Option Build)
  | update (jdk : Bool) (major : Leading) (security : Decimal) (build : Option Build)
  | jep223 (opening : Opening) (major : Leading) (numbers : Numbers) (tag : Option Tag)
      (build : Option Build) (suffix : Option Suffix)

namespace ReleaseName

def family : ReleaseName → Family
  | nightly .. => .nightly
  | legacy .. => .legacy
  | update .. => .update
  | jep223 .. => .jep223

/-- What stands behind the numbers of a version string. -/
def ending (tag : Option Tag) (build : Option Build) (suffix : Option Suffix) : List Char :=
  tag.elim [] (fun p => '-' :: p.text) ++
    (build.elim [] (Build.text ['+']) ++ suffix.elim [] fun x => '-' :: x.text)

def text : ReleaseName → List Char
  | nightly opening major marked date =>
    opening.text ++ (major.digits ++ ((if marked then ['u'] else []) ++ '-' :: date.text))
  | legacy line _ security build =>
    "1.".toList ++ (line.digits ++ (".0_".toList ++
      (security.digits ++ build.elim [] (Build.text "-b".toList))))
  | update jdk major security build =>
    (if jdk then "jdk".toList else []) ++ (major.digits ++ 'u' ::
      (security.digits ++ build.elim [] (Build.text "-b".toList)))
  | jep223 opening major numbers tag build suffix =>
    opening.text ++ (major.digits ++ (numbers.text ++ ending tag build suffix))

def buildWord (build : Option Build) : Option (List Char) := build.map (·.number.digits)

def additionalWord (build : Option Build) : Option (List Char) :=
  build.bind fun b => b.additional.map (·.digits)

/-- The words that a reading of the name finds. -/
def spelling : ReleaseName → Spelling
  | nightly _ major _ date => { major := major.digits, optional := some date.text }
  | legacy line _ security build =>
    { major := line.digits, security := some security.digits,
      build := buildWord build, additional := additionalWord build }
  | update _ major security build =>
    { major := major.digits, security := some security.digits,
      build := buildWord build, additional := additionalWord build }
  | jep223 _ major numbers tag build suffix =>
    { major := major.digits
      minor := numbers.minor.map (·.digits)
      security := numbers.security.map (·.digits)
      patch := numbers.patch.map (·.digits)
      pre := tag.map (·.text)
      build := buildWord build
      additional := additionalWord build
      optional := suffix.map (·.text) }

def buildValue (build : Option Build) : UInt32 := (build.map (·.number.value)).getD 0

def additionalValue (build : Option Build) : Option UInt32 :=
  build.bind fun b => b.additional.map (·.value)

/-- The parts of the version that the name spells; a missing number is zero or none at all. -/
def components : ReleaseName → Components
  | nightly _ major _ date =>
    ⟨major.value, 0, 0, none, none, 0, none, some (String.ofList date.text)⟩
  | legacy line _ security build =>
    ⟨line.value, 0, security.value, none, none, buildValue build, additionalValue build, none⟩
  | update _ major security build =>
    ⟨major.value, 0, security.value, none, none, buildValue build, additionalValue build, none⟩
  | jep223 _ major numbers tag build suffix =>
    { major := major.value
      minor := (numbers.minor.map (·.value)).getD 0
      security := (numbers.security.map (·.value)).getD 0
      pre := tag.map fun p => String.ofList p.text
      patch := numbers.patch.map (·.value)
      build := buildValue build
      additional := additionalValue build
      optional := suffix.map fun x => String.ofList x.text }

def version (r : ReleaseName) : Version := r.components.version

theorem isReadable_spelling (r : ReleaseName) : r.spelling.IsReadable := by
  have hnumber (m : Option Decimal) : ∀ w ∈ m.map (·.digits), IsNumeral w := by
    cases m with
    | none => simp
    | some m => simpa using m.isNumeral
  have hbuild (b : Option Build) : (∀ w ∈ buildWord b, IsNumeral w) ∧
      ∀ w ∈ additionalWord b, IsNumeral w := by
    cases b with
    | none => simp [buildWord, additionalWord]
    | some b => exact ⟨hnumber (some b.number), hnumber b.additional⟩
  rw [Spelling.isReadable_iff]
  cases r with
  | nightly opening major marked date =>
    exact ⟨major.isNumeral, hnumber none, hnumber none, hnumber none, hbuild none⟩
  | legacy line _ security build =>
    exact ⟨line.isNumeral, hnumber none, hnumber (some security), hnumber none, hbuild build⟩
  | update jdk major security build =>
    exact ⟨major.isNumeral, hnumber none, hnumber (some security), hnumber none, hbuild build⟩
  | jep223 opening major numbers tag build suffix =>
    exact ⟨major.isNumeral, hnumber numbers.minor, hnumber numbers.security,
      hnumber numbers.patch, hbuild build⟩

theorem components_spelling (r : ReleaseName) : r.spelling.components = r.components := by
  have hbuild (b : Option Build) : ((buildWord b).map numeralValue).getD 0 = buildValue b := by
    cases b <;> rfl
  have hadditional (b : Option Build) :
      (additionalWord b).map numeralValue = additionalValue b := by
    rcases b with _ | ⟨n, _ | a⟩ <;> rfl
  cases r with
  | nightly opening major marked date => rfl
  | legacy line _ security build =>
    rw [Spelling.components, spelling, hbuild, hadditional]
    rfl
  | update jdk major security build =>
    rw [Spelling.components, spelling, hbuild, hadditional]
    rfl
  | jep223 opening major numbers tag build suffix =>
    rw [Spelling.components, spelling, hbuild, hadditional]
    simp only [Option.map_map]
    rfl

/-- The words of a name spell its version. -/
theorem version?_spelling (r : ReleaseName) : r.spelling.version? = some r.version := by
  rw [Spelling.version?_eq_some_iff, components_spelling]
  exact ⟨r.isReadable_spelling, rfl⟩

end ReleaseName

end ReleaseCatalog

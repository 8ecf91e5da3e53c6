import ReleaseCatalog.Proofs.Version.Canonical
import ReleaseCatalog.Version.Range

namespace ReleaseCatalog

open Text (isBlank trim trimStart trimEnd)

/-- Something with blanks around it. -/
structure Padded (α : Type) where
  before : List Char
  content : α
  after : List Char
  isBlank_before : ∀ c ∈ before, isBlank c = true
  isBlank_after : ∀ c ∈ after, isBlank c = true

def Padded.text {α : Type} (write : α → List Char) (p : Padded α) : List Char :=
  p.before ++ (write p.content ++ p.after)

/-- A version as specifications write it: by the canonical string of plain parts. -/
structure PlainVersion where
  parts : Components
  isPlain : parts.IsPlain

namespace PlainVersion

def text (v : PlainVersion) : List Char := v.parts.text

def version (v : PlainVersion) : Version := v.parts.version

theorem bound_text (v : PlainVersion) : bound v.text = .ok v.version := by
  rw [bound, text, v.isPlain.parse_text]
  rfl

theorem exists_name (v : PlainVersion) : ∃ r : ReleaseName, r.text = v.text := by
  obtain ⟨_, _, _, _, _, r, -, htext, -⟩ := v.isPlain.exists_name
  exact ⟨r, htext⟩

theorem text_ne_nil (v : PlainVersion) : v.text ≠ [] := by
  obtain ⟨r, hr⟩ := v.exists_name
  rw [← hr]
  exact r.text_ne_nil

theorem isBlank_text (v : PlainVersion) {c : Char} (h : c ∈ v.text) : isBlank c = false := by
  obtain ⟨r, hr⟩ := v.exists_name
  rw [← hr] at h
  exact r.isBlank_text h

theorem isNameChar_text (v : PlainVersion) {c : Char} (h : c ∈ v.text) :
    ReleaseName.isNameChar c = true := by
  obtain ⟨r, hr⟩ := v.exists_name
  rw [← hr] at h
  exact r.isNameChar_text h

end PlainVersion

/-- An interval as specifications write it: one version or two bounds, of which either may be
missing, between brackets that include what stands at them or leave it out. -/
inductive Clause where
  | single (lowerInclusive upperInclusive : Bool) (version : Padded PlainVersion)
  | pair (lowerInclusive upperInclusive : Bool) (lower upper : Padded (Option PlainVersion))

namespace Clause

def openBracket (inclusive : Bool) : Char := if inclusive then '[' else '('

def closeBracket (inclusive : Bool) : Char := if inclusive then ']' else ')'

def boundText (v : Option PlainVersion) : List Char := v.elim [] PlainVersion.text

/-- What stands between the brackets. -/
def inner : Clause → List Char
  | single _ _ v => v.text PlainVersion.text
  | pair _ _ l u => l.text boundText ++ ',' :: u.text boundText

def lowerInclusive : Clause → Bool
  | single i _ _ | pair i _ _ _ => i

def upperInclusive : Clause → Bool
  | single _ i _ | pair _ i _ _ => i

/-- The clause from bracket to bracket. -/
def text (c : Clause) : List Char :=
  openBracket c.lowerInclusive :: (c.inner ++ [closeBracket c.upperInclusive])

/-- The bounds that the clause spells. -/
def interval : Clause → Interval
  | single i j v => ⟨some v.content.version, i, some v.content.version, j⟩
  | pair i j l u =>
    ⟨l.content.map PlainVersion.version, i, u.content.map PlainVersion.version, j⟩

/-- A version on its own stands in square brackets; two bounds are not the same text, and the upper
one does not rank below the lower one. -/
def IsValid : Clause → Prop
  | single i j _ => i = true ∧ j = true
  | pair _ _ l u => boundText l.content ≠ boundText u.content ∧
      ∀ v ∈ l.content, ∀ w ∈ u.content, compare w.version v.version ≠ .lt

/-- What a clause that is not valid is refused for. -/
def fault (c : Clause) : RangeError :=
  match c with
  | single .. => .singleVersionNotInclusive (String.ofList c.text)
  | pair _ _ l u =>
    if boundText l.content = boundText u.content then .identicalBounds (String.ofList c.text)
    else .inverted (String.ofList c.text)

/-- The clause has a lower bound that does not rank below the upper bound of the one in front. -/
def Follows (previous c : Clause) : Prop :=
  ∃ u ∈ previous.interval.upper, ∃ l ∈ c.interval.lower, compare l u ≠ .lt

theorem overlaps_eq_false {previous c : Clause} :
    previous.interval.overlaps c.interval = false ↔ previous.Follows c := by
  rw [Follows, Interval.overlaps]
  cases previous.interval.upper <;> cases c.interval.lower <;> simp

end Clause

theorem bound?_boundText (v : Option PlainVersion) :
    bound? (Clause.boundText v) = .ok (v.map PlainVersion.version) := by
  cases v with
  | none => rfl
  | some v =>
    have hne : v.text.isEmpty = false := List.isEmpty_eq_false_iff.2 v.text_ne_nil
    show bound? v.text = _
    rw [bound?, hne, v.bound_text]
    rfl

theorem Clause.mem_boundText {v : Option PlainVersion} {c : Char} (h : c ∈ boundText v) :
    isBlank c = false ∧ ReleaseName.isNameChar c = true := by
  cases v with
  | none => cases h
  | some v => exact ⟨v.isBlank_text h, v.isNameChar_text h⟩

theorem Padded.mem_text {α : Type} {write : α → List Char} {p : Padded α} {c : Char}
    (h : c ∈ p.text write) : isBlank c = true ∨ c ∈ write p.content := by
  simp only [Padded.text, List.mem_append] at h
  rcases h with h | h | h
  · exact .inl (p.isBlank_before c h)
  · exact .inr h
  · exact .inl (p.isBlank_after c h)

theorem Padded.trim_text {α : Type} {write : α → List Char} {p : Padded α}
    (h : ∀ c ∈ write p.content, isBlank c = false) : trim (p.text write) = write p.content :=
  Text.trim_padded p.isBlank_before h p.isBlank_after

theorem Padded.trim_trimEnd {α : Type} {write : α → List Char} {p : Padded α}
    (h : ∀ c ∈ write p.content, isBlank c = false) :
    trim (trimEnd (p.text write)) = write p.content :=
  Text.trim_trimEnd_padded p.isBlank_before h p.isBlank_after

theorem not_mem_padded {α : Type} {write : α → List Char} {p : Padded α} {c : Char}
    (hname : ∀ d ∈ write p.content, ReleaseName.isNameChar d = true)
    (hc : isBlank c = false ∧ ReleaseName.isNameChar c = false) : c ∉ p.text write := by
  intro h
  rcases Padded.mem_text h with h | h
  · rw [hc.1] at h
    cases h
  · have hd := hname c h
    rw [hc.2] at hd
    cases hd

namespace Clause

theorem head?_text (c : Clause) : (c.text.head? == some '[') = c.lowerInclusive := by
  show (some (openBracket c.lowerInclusive) == some '[') = _
  cases c.lowerInclusive <;> rfl

theorem getLast?_text (c : Clause) : (c.text.getLast? == some ']') = c.upperInclusive := by
  have hlast : c.text.getLast? = some (closeBracket c.upperInclusive) := by
    rw [text, ← List.cons_append, List.getLast?_append]
    rfl
  rw [hlast]
  cases c.upperInclusive <;> rfl

theorem dropLast_text (c : Clause) : (c.text.drop 1).dropLast = c.inner := by
  simp [text]

theorem parse_single (i j : Bool) (v : Padded PlainVersion) :
    Interval.parse (single i j v).text =
      if i && j then .ok (.exact v.content.version)
      else .error (.singleVersionNotInclusive (String.ofList (single i j v).text)) := by
  have hinner : trim (single i j v).inner = v.content.text :=
    v.trim_text fun _ h => v.content.isBlank_text h
  have hcomma : v.content.text.contains ',' = false := by
    rw [← Bool.not_eq_true, List.contains_iff_mem]
    intro hmem
    have hname := v.content.isNameChar_text hmem
    revert hname
    decide
  simp only [Interval.parse, head?_text, getLast?_text, dropLast_text, hinner, hcomma,
    v.content.bound_text, lowerInclusive, upperInclusive]
  rw [if_neg Bool.false_ne_true]
  split
  · rfl
  · rfl

/-- The middle of a pair is taken apart at its comma. -/
theorem split_inner (i j : Bool) (l u : Padded (Option PlainVersion)) :
    (trim (pair i j l u).inner).contains ',' = true ∧
      trim ((trim (pair i j l u).inner).takeWhile (· != ',')) = boundText l.content ∧
      trim (((trim (pair i j l u).inner).dropWhile (· != ',')).drop 1) = boundText u.content := by
  have hblank (v : Option PlainVersion) : ∀ c ∈ boundText v, isBlank c = false :=
    fun _ h => (mem_boundText h).1
  have hinner : trim (pair i j l u).inner =
      trimStart (l.text boundText) ++ ([','] ++ trimEnd (u.text boundText)) :=
    Text.trim_append (w := [',']) (by simp) (by simp; decide) (by simp; decide)
  have hcomma : ',' ∉ l.text boundText :=
    not_mem_padded (fun _ h => (mem_boundText h).2) (by decide)
  have hlower : ∀ c ∈ trimStart (l.text boundText), (c != ',') = true := by
    intro c hc
    rw [bne_iff_ne]
    rintro rfl
    exact hcomma ((Text.trimStart_suffix _).subset hc)
  rw [hinner]
  refine ⟨by simp, ?_, ?_⟩
  · rw [List.takeWhile_append_of_pos hlower]
    simp [Text.trim_trimStart, l.trim_text (hblank _)]
  · rw [List.dropWhile_append_of_pos hlower]
    simp [u.trim_trimEnd (hblank _)]

theorem parse_pair (i j : Bool) (l u : Padded (Option PlainVersion)) :
    Interval.parse (pair i j l u).text =
      if boundText l.content = boundText u.content then
        .error (.identicalBounds (String.ofList (pair i j l u).text))
      else if ∃ v ∈ l.content, ∃ w ∈ u.content, compare w.version v.version = .lt then
        .error (.inverted (String.ofList (pair i j l u).text))
      else .ok (pair i j l u).interval := by
  obtain ⟨hcomma, hlower, hupper⟩ := split_inner i j l u
  simp only [Interval.parse, head?_text, getLast?_text, dropLast_text, hcomma, hlower, hupper,
    bound?_boundText, if_true]
  by_cases hsame : boundText l.content = boundText u.content
  · rw [if_pos hsame, if_pos hsame]
    rfl
  · rw [if_neg hsame, if_neg hsame]
    have hinterval : (pair i j l u).interval =
        ⟨l.content.map PlainVersion.version, i, u.content.map PlainVersion.version, j⟩ := rfl
    rw [hinterval]
    clear hlower hupper hsame hinterval
    generalize l.content = lower, u.content = upper
    rcases lower with _ | v <;> rcases upper with _ | w
    case some.some =>
      by_cases hless : compare w.version v.version = .lt
      · rw [if_pos ⟨v, rfl, w, rfl, hless⟩]
        show (if (compare w.version v.version == .lt) = true then _ else _) = _
        rw [if_pos (beq_iff_eq.2 hless)]
        rfl
      · rw [if_neg (by rintro ⟨_, ⟨⟩, _, ⟨⟩, h⟩; exact hless h)]
        show (if (compare w.version v.version == .lt) = true then _ else _) = _
        rw [if_neg fun h => hless (beq_iff_eq.1 h)]
        rfl
    all_goals
      rw [if_neg (by simp)]
      rfl

theorem parse_text_of_isValid {c : Clause} (h : c.IsValid) :
    Interval.parse c.text = .ok c.interval := by
  cases c with
  | single i j v =>
    obtain ⟨rfl, rfl⟩ := h
    exact parse_single true true v
  | pair i j l u =>
    obtain ⟨hne, hle⟩ := h
    rw [parse_pair, if_neg hne, if_neg]
    rintro ⟨v, hv, w, hw, hlt⟩
    exact hle v hv w hw hlt

theorem parse_text_of_not_isValid {c : Clause} (h : ¬ c.IsValid) :
    Interval.parse c.text = .error c.fault := by
  cases c with
  | single i j v =>
    rw [parse_single, if_neg]
    · rfl
    · rw [Bool.and_eq_true]
      exact h
  | pair i j l u =>
    rw [parse_pair, fault]
    by_cases hsame : boundText l.content = boundText u.content
    · rw [if_pos hsame, if_pos hsame]
    · rw [if_neg hsame, if_neg hsame, if_pos]
      by_contra hless
      apply h
      refine ⟨hsame, ?_⟩
      intro v hv w hw hlt
      exact hless ⟨v, hv, w, hw, hlt⟩

end Clause

end ReleaseCatalog

import ReleaseCatalog.Proofs.Version.Preference

namespace ReleaseCatalog

open Text (Reading isDigit)
open Text.Reading

namespace Family

/-- Digits of any script. -/
def IsNumberWord (w : List Char) : Prop := w ≠ [] ∧ ∀ c ∈ w, isDigit c = true

/-- Digits of any script, of which the first is from `1` to `9`. -/
def IsLeadingWord (w : List Char) : Prop :=
  IsNumberWord w ∧ ∀ c ∈ w.head?, ('1' ≤ c && c ≤ '9') = true

def IsTagWord (w : List Char) : Prop := ∃ p : Tag, p.text = w

/-- The words of a build number and of what may follow it. -/
abbrev BuildWords : Type := Option (List Char × Option (List Char))

def BuildWords.text (mark : List Char) (build : BuildWords) : List Char :=
  build.elim [] fun b => mark ++ (b.1 ++ b.2.elim [] ('.' :: ·))

def BuildWords.AreNumbers (build : BuildWords) : Prop :=
  ∀ b ∈ build, IsNumberWord b.1 ∧ ∀ a ∈ b.2, IsNumberWord a

def afterDot (w : Option (List Char)) : List Char := w.elim [] ('.' :: ·)

def afterHyphen (w : Option (List Char)) : List Char := w.elim [] ('-' :: ·)

/-- How a family writes a spelling, whether or not its numbers can be read. -/
inductive Writes : Family → Spelling → List Char → Prop where
  | nightly {major : List Char} (opening : Opening) (hmajor : IsLeadingWord major) (marked : Bool)
      (date : Stamp) :
      Writes .nightly { major, optional := some date.text }
        (opening.text ++ (major ++ ((if marked then ['u'] else []) ++ '-' :: date.text)))
  | legacy {line : Char} {security : List Char} {build : BuildWords}
      (hline : ('1' ≤ line && line ≤ '9') = true) (hsecurity : IsNumberWord security)
      (hbuild : build.AreNumbers) :
      Writes .legacy { major := [line], security := some security, build := build.map (·.1),
                       additional := build.bind (·.2) }
        ("1.".toList ++ (line :: (".0_".toList ++ (security ++ build.text "-b".toList))))
  | update {major security : List Char} {build : BuildWords} (jdk : Bool)
      (hmajor : IsLeadingWord major) (hsecurity : IsNumberWord security)
      (hbuild : build.AreNumbers) :
      Writes .update { major, security := some security, build := build.map (·.1),
                       additional := build.bind (·.2) }
        ((if jdk then "jdk".toList else []) ++ (major ++ 'u' ::
          (security ++ build.text "-b".toList)))
  | jep223 {major : List Char} {minor security patch pre optional : Option (List Char)}
      {build : BuildWords} (opening : Opening) (hmajor : IsLeadingWord major)
      (hminor : ∀ w ∈ minor, IsNumberWord w) (hsecurity : ∀ w ∈ security, IsNumberWord w)
      (hpatch : ∀ w ∈ patch, IsNumberWord w) (hpre : ∀ w ∈ pre, IsTagWord w)
      (hbuild : build.AreNumbers) (hoptional : ∀ w ∈ optional, ∃ x : Suffix, x.text = w) :
      Writes .jep223 { major, minor, security, patch, pre, optional, build := build.map (·.1),
                       additional := build.bind (·.2) }
        (opening.text ++ (major ++ (afterDot minor ++ (afterDot security ++ (afterDot patch ++
          (afterHyphen pre ++ (build.text ['+'] ++ afterHyphen optional)))))))

theorem mem_maybe {α : Type} {p : Reading α} {x : Option α} {s t : List Char} :
    (x, t) ∈ maybe p s ↔ (∃ a, x = some a ∧ (a, t) ∈ p s) ∨ (x = none ∧ t = s) := by
  cases x <;> simp

theorem exists_of_mem_product {u : Unit} {s t : List Char} (h : (u, t) ∈ product s) :
    ∃ o : Opening, s = o.text ++ t := by
  obtain ⟨x, v, hx, hpure⟩ := mem_bind.1 h
  obtain ⟨-, rfl⟩ := mem_pure.1 hpure
  rcases mem_maybe.1 hx with ⟨a, -, ha⟩ | ⟨-, rfl⟩
  · obtain ⟨_, v, hjdk, hhyphen⟩ := mem_bind.1 ha
    obtain rfl := mem_literal.1 hjdk
    rcases mem_maybe.1 hhyphen with ⟨_, -, hliteral⟩ | ⟨-, rfl⟩
    · obtain rfl := mem_literal.1 hliteral
      exact ⟨.hyphenated, rfl⟩
    · exact ⟨.jdk, rfl⟩
  · exact ⟨.bare, rfl⟩

theorem of_mem_headed {first rest : Char → Bool} {w s t : List Char}
    (h : (w, t) ∈ headed first rest s) :
    s = w ++ t ∧ ∃ c v, w = c :: v ∧ first c = true ∧ ∀ d ∈ v, rest d = true := by
  obtain ⟨c, u, hone, hrun⟩ := mem_bind.1 h
  obtain ⟨rfl, hc⟩ := mem_one.1 hone
  obtain ⟨v, u', hv, hpure⟩ := mem_bind.1 hrun
  obtain ⟨rfl, rfl⟩ := mem_pure.1 hpure
  obtain ⟨rfl, hdigits, -⟩ := mem_run.1 hv
  exact ⟨rfl, c, v, rfl, hc, hdigits⟩

theorem of_mem_leading {w s t : List Char} (h : (w, t) ∈ leading s) :
    s = w ++ t ∧ IsLeadingWord w := by
  obtain ⟨hs, c, v, rfl, hc, hv⟩ := of_mem_headed h
  refine ⟨hs, ⟨by simp, ?_⟩, ?_⟩
  · intro d hd
    rcases List.mem_cons.1 hd with rfl | hd
    · exact isDigit_of_leads hc
    · exact hv d hd
  · rintro d hd
    cases hd
    exact hc

theorem of_mem_many {w s t : List Char} (h : (w, t) ∈ many isDigit s) :
    s = w ++ t ∧ IsNumberWord w := by
  obtain ⟨hne, hrun⟩ := mem_many.1 h
  obtain ⟨hs, hdigits, -⟩ := mem_run.1 hrun
  exact ⟨hs, hne, hdigits⟩

theorem of_mem_numberAfter {mark w s t : List Char} (h : (w, t) ∈ numberAfter mark s) :
    s = mark ++ (w ++ t) ∧ IsNumberWord w := by
  obtain ⟨_, u, hmark, hmany⟩ := mem_bind.1 h
  obtain rfl := mem_literal.1 hmark
  obtain ⟨rfl, hw⟩ := of_mem_many hmany
  exact ⟨rfl, hw⟩

theorem of_mem_dotted {w : Option (List Char)} {s t : List Char}
    (h : (w, t) ∈ maybe (numberAfter ['.']) s) :
    s = afterDot w ++ t ∧ ∀ v ∈ w, IsNumberWord v := by
  rcases mem_maybe.1 h with ⟨v, rfl, hv⟩ | ⟨rfl, rfl⟩
  · obtain ⟨rfl, hnumber⟩ := of_mem_numberAfter hv
    refine ⟨rfl, ?_⟩
    rintro _ ⟨⟩
    exact hnumber
  · exact ⟨rfl, by simp⟩

theorem of_mem_buildAfter {mark s t : List Char} {build : BuildWords}
    (h : (build, t) ∈ maybe (buildAfter mark) s) :
    s = build.text mark ++ t ∧ build.AreNumbers := by
  rcases mem_maybe.1 h with ⟨⟨w, a⟩, rfl, hb⟩ | ⟨rfl, rfl⟩
  · obtain ⟨_, u, hw, hrest⟩ := mem_bind.1 hb
    obtain ⟨_, u', ha, hpure⟩ := mem_bind.1 hrest
    obtain ⟨hpair, rfl⟩ := mem_pure.1 hpure
    cases hpair
    obtain ⟨rfl, hnumber⟩ := of_mem_numberAfter hw
    obtain ⟨rfl, hadditional⟩ := of_mem_dotted ha
    refine ⟨by simp [BuildWords.text, afterDot], ?_⟩
    rintro _ ⟨⟩
    exact ⟨hnumber, hadditional⟩
  · refine ⟨rfl, ?_⟩
    rintro _ ⟨⟩

theorem of_mem_exactly {ok : Char → Bool} {n : Nat} {w s t : List Char}
    (h : (w, t) ∈ exactly ok n s) : s = w ++ t ∧ w.length = n ∧ ∀ c ∈ w, ok c = true := by
  induction n generalizing w s with
  | zero =>
    obtain ⟨rfl, rfl⟩ := mem_done.1 h
    exact ⟨rfl, rfl, by simp⟩
  | succ n ih =>
    obtain ⟨c, u, hone, hrest⟩ := mem_bind.1 h
    obtain ⟨rfl, hc⟩ := mem_one.1 hone
    obtain ⟨v, u', hv, hpure⟩ := mem_bind.1 hrest
    obtain ⟨rfl, rfl⟩ := mem_pure.1 hpure
    obtain ⟨rfl, hlen, hok⟩ := ih hv
    refine ⟨rfl, by rw [List.length_cons, hlen], ?_⟩
    intro d hd
    rcases List.mem_cons.1 hd with rfl | hd
    · exact hc
    · exact hok d hd

theorem of_mem_go {n : Nat} {w s t : List Char} (h : (w, t) ∈ date.go n s) :
    ∃ fields : List (List Char), s = w ++ t ∧ w = (fields.flatMap fun v => '-' :: v) ∧
      fields.length = n ∧ ∀ v ∈ fields, v.length = 2 ∧ ∀ c ∈ v, isDigit c = true := by
  induction n generalizing w s with
  | zero =>
    obtain ⟨rfl, rfl⟩ := mem_done.1 h
    exact ⟨[], rfl, rfl, rfl, by simp⟩
  | succ n ih =>
    obtain ⟨_, u, hmark, hfield⟩ := mem_bind.1 h
    obtain rfl := mem_literal.1 hmark
    obtain ⟨v, u', hv, hrest⟩ := mem_bind.1 hfield
    obtain ⟨rfl, hlen, hdigits⟩ := of_mem_exactly hv
    obtain ⟨w', u'', hw, hpure⟩ := mem_bind.1 hrest
    obtain ⟨rfl, rfl⟩ := mem_pure.1 hpure
    obtain ⟨fields, rfl, rfl, hcount, hfields⟩ := ih hw
    refine ⟨v :: fields, by simp, by simp, by rw [List.length_cons, hcount], ?_⟩
    intro x hx
    rcases List.mem_cons.1 hx with rfl | hx
    · exact ⟨hlen, hdigits⟩
    · exact hfields x hx

theorem exists_of_mem_date {w s t : List Char} (h : (w, t) ∈ date s) :
    ∃ d : Stamp, d.text = w ∧ s = w ++ t := by
  obtain ⟨year, u, hyear, hrest⟩ := mem_bind.1 h
  obtain ⟨rfl, hlen, hdigits⟩ := of_mem_exactly hyear
  obtain ⟨v, u', hgo, hpure⟩ := mem_bind.1 hrest
  obtain ⟨rfl, rfl⟩ := mem_pure.1 hpure
  obtain ⟨fields, rfl, rfl, hcount, hfields⟩ := of_mem_go hgo
  exact ⟨⟨year, fields, hlen, hcount, fun v hv => (hfields v hv).1, hdigits,
    fun v hv => (hfields v hv).2⟩, rfl, by simp⟩

theorem writes_of_mem_nightlyName {sp : Spelling} {s t : List Char}
    (h : (sp, t) ∈ nightlyName s) : ∃ w, s = w ++ t ∧ Writes .nightly sp w := by
  obtain ⟨_, u, hproduct, h⟩ := mem_bind.1 h
  obtain ⟨major, u₁, hmajorAt, h⟩ := mem_bind.1 h
  obtain ⟨mark, u₂, hmarkAt, h⟩ := mem_bind.1 h
  obtain ⟨_, u₃, hhyphen, h⟩ := mem_bind.1 h
  obtain ⟨stamp, u₄, hdate, h⟩ := mem_bind.1 h
  obtain ⟨rfl, rfl⟩ := mem_pure.1 h
  obtain ⟨opening, rfl⟩ := exists_of_mem_product hproduct
  obtain ⟨rfl, hmajor⟩ := of_mem_leading hmajorAt
  obtain rfl := mem_literal.1 hhyphen
  obtain ⟨date, rfl, rfl⟩ := exists_of_mem_date hdate
  rcases mem_maybe.1 hmarkAt with ⟨_, -, hu⟩ | ⟨-, rfl⟩
  · obtain rfl := mem_literal.1 hu
    exact ⟨_, by simp, .nightly opening hmajor true date⟩
  · exact ⟨_, by simp, .nightly opening hmajor false date⟩

theorem writes_of_mem_legacyName {sp : Spelling} {s t : List Char}
    (h : (sp, t) ∈ legacyName s) : ∃ w, s = w ++ t ∧ Writes .legacy sp w := by
  obtain ⟨_, u, hone, h⟩ := mem_bind.1 h
  obtain ⟨line, u₁, hlineAt, h⟩ := mem_bind.1 h
  obtain ⟨_, u₂, hzero, h⟩ := mem_bind.1 h
  obtain ⟨security, u₃, hsecurityAt, h⟩ := mem_bind.1 h
  obtain ⟨build, u₄, hbuildAt, h⟩ := mem_bind.1 h
  obtain ⟨rfl, rfl⟩ := mem_pure.1 h
  obtain rfl := mem_literal.1 hone
  obtain ⟨rfl, hline⟩ := mem_one.1 hlineAt
  obtain rfl := mem_literal.1 hzero
  obtain ⟨rfl, hsecurity⟩ := of_mem_many hsecurityAt
  obtain ⟨rfl, hbuild⟩ := of_mem_buildAfter hbuildAt
  exact ⟨_, by simp, .legacy hline hsecurity hbuild⟩

theorem writes_of_mem_updateName {sp : Spelling} {s t : List Char}
    (h : (sp, t) ∈ updateName s) : ∃ w, s = w ++ t ∧ Writes .update sp w := by
  obtain ⟨jdk, u, hjdk, h⟩ := mem_bind.1 h
  obtain ⟨major, u₁, hmajorAt, h⟩ := mem_bind.1 h
  obtain ⟨_, u₂, hu, h⟩ := mem_bind.1 h
  obtain ⟨security, u₃, hsecurityAt, h⟩ := mem_bind.1 h
  obtain ⟨build, u₄, hbuildAt, h⟩ := mem_bind.1 h
  obtain ⟨rfl, rfl⟩ := mem_pure.1 h
  obtain ⟨rfl, hmajor⟩ := of_mem_leading hmajorAt
  obtain rfl := mem_literal.1 hu
  obtain ⟨rfl, hsecurity⟩ := of_mem_many hsecurityAt
  obtain ⟨rfl, hbuild⟩ := of_mem_buildAfter hbuildAt
  rcases mem_maybe.1 hjdk with ⟨_, -, hliteral⟩ | ⟨-, rfl⟩
  · obtain rfl := mem_literal.1 hliteral
    exact ⟨_, by simp, .update true hmajor hsecurity hbuild⟩
  · exact ⟨_, by simp, .update false hmajor hsecurity hbuild⟩

theorem of_mem_tagAfter {pre : Option (List Char)} {s t : List Char}
    (h : (pre, t) ∈ maybe tagAfter s) : s = afterHyphen pre ++ t ∧ ∀ w ∈ pre, IsTagWord w := by
  rcases mem_maybe.1 h with ⟨w, rfl, hw⟩ | ⟨rfl, rfl⟩
  · obtain ⟨_, u, hhyphen, hafter⟩ := mem_bind.1 hw
    obtain rfl := mem_literal.1 hhyphen
    obtain ⟨rfl, c, v, rfl, hc, hv⟩ := of_mem_headed hafter
    refine ⟨rfl, ?_⟩
    rintro _ ⟨⟩
    exact ⟨⟨c, v, hc, hv⟩, rfl⟩
  · exact ⟨rfl, by simp⟩

theorem of_mem_suffixAfter {optional : Option (List Char)} {s t : List Char}
    (h : (optional, t) ∈ maybe suffixAfter s) :
    s = afterHyphen optional ++ t ∧ ∀ w ∈ optional, ∃ x : Suffix, x.text = w := by
  rcases mem_maybe.1 h with ⟨w, rfl, hw⟩ | ⟨rfl, rfl⟩
  · obtain ⟨_, u, hhyphen, hafter⟩ := mem_bind.1 hw
    obtain rfl := mem_literal.1 hhyphen
    obtain ⟨hne, hrun⟩ := mem_many.1 hafter
    obtain ⟨rfl, hchars, -⟩ := mem_run.1 hrun
    refine ⟨rfl, ?_⟩
    rintro _ ⟨⟩
    exact ⟨⟨w, hne, hchars⟩, rfl⟩
  · exact ⟨rfl, by simp⟩

theorem writes_of_mem_jep223Name {sp : Spelling} {s t : List Char}
    (h : (sp, t) ∈ jep223Name s) : ∃ w, s = w ++ t ∧ Writes .jep223 sp w := by
  obtain ⟨_, u, hproduct, h⟩ := mem_bind.1 h
  obtain ⟨major, u₁, hmajorAt, h⟩ := mem_bind.1 h
  obtain ⟨minor, u₂, hminorAt, h⟩ := mem_bind.1 h
  obtain ⟨security, u₃, hsecurityAt, h⟩ := mem_bind.1 h
  obtain ⟨patch, u₄, hpatchAt, h⟩ := mem_bind.1 h
  obtain ⟨pre, u₅, hpreAt, h⟩ := mem_bind.1 h
  obtain ⟨build, u₆, hbuildAt, h⟩ := mem_bind.1 h
  obtain ⟨optional, u₇, hoptionalAt, h⟩ := mem_bind.1 h
  obtain ⟨rfl, rfl⟩ := mem_pure.1 h
  obtain ⟨opening, rfl⟩ := exists_of_mem_product hproduct
  obtain ⟨rfl, hmajor⟩ := of_mem_leading hmajorAt
  obtain ⟨rfl, hminor⟩ := of_mem_dotted hminorAt
  obtain ⟨rfl, hsecurity⟩ := of_mem_dotted hsecurityAt
  obtain ⟨rfl, hpatch⟩ := of_mem_dotted hpatchAt
  obtain ⟨rfl, hpre⟩ := of_mem_tagAfter hpreAt
  obtain ⟨rfl, hbuild⟩ := of_mem_buildAfter hbuildAt
  obtain ⟨rfl, hoptional⟩ := of_mem_suffixAfter hoptionalAt
  exact ⟨_, by simp, .jep223 opening hmajor hminor hsecurity hpatch hpre hbuild hoptional⟩

theorem writes_of_mem {f : Family} {sp : Spelling} {s t : List Char} (h : (sp, t) ∈ f.name s) :
    ∃ w, s = w ++ t ∧ Writes f sp w := by
  cases f with
  | nightly => exact writes_of_mem_nightlyName h
  | legacy => exact writes_of_mem_legacyName h
  | update => exact writes_of_mem_updateName h
  | jep223 => exact writes_of_mem_jep223Name h

theorem isLeadingWord_singleton {c : Char} (h : ('1' ≤ c && c ≤ '9') = true) :
    IsLeadingWord [c] :=
  ⟨⟨by simp, by simpa using isDigit_of_leads h⟩, by simpa using h⟩

theorem IsNumberWord.exists_decimal {w : List Char} (hw : IsNumberWord w) (h : IsNumeral w) :
    ∃ m : Decimal, m.digits = w :=
  Decimal.exists_of_isNumeral hw.1 h

theorem IsLeadingWord.exists_leading {w : List Char} (hw : IsLeadingWord w) (h : IsNumeral w) :
    ∃ m : Leading, m.digits = w := by
  obtain ⟨m, rfl⟩ := hw.1.exists_decimal h
  exact ⟨⟨m, hw.2⟩, rfl⟩

theorem exists_map_eq {α β : Type} {g : β → α} {x : Option α} (h : ∀ a ∈ x, ∃ b, g b = a) :
    ∃ y : Option β, y.map g = x := by
  cases x with
  | none => exact ⟨none, rfl⟩
  | some a =>
    obtain ⟨b, rfl⟩ := h a rfl
    exact ⟨some b, rfl⟩

theorem exists_optional_decimal {x : Option (List Char)} (hx : ∀ w ∈ x, IsNumberWord w)
    (h : ∀ w ∈ x, IsNumeral w) : ∃ m : Option Decimal, m.map (·.digits) = x :=
  exists_map_eq fun w hw => (hx w hw).exists_decimal (h w hw)

theorem afterDot_digits (m : Option Decimal) : afterDot (m.map (·.digits)) = dotted m := by
  cases m <;> rfl

theorem BuildWords.exists_build {build : BuildWords} (hbuild : build.AreNumbers)
    (hnumber : ∀ w ∈ build.map (·.1), IsNumeral w)
    (hadditional : ∀ w ∈ build.bind (·.2), IsNumeral w) :
    ∃ b : Option Build, ReleaseName.buildWord b = build.map (·.1) ∧
      ReleaseName.additionalWord b = build.bind (·.2) ∧
        ∀ mark, b.elim [] (Build.text mark) = build.text mark := by
  rcases build with _ | ⟨w, a⟩
  · exact ⟨none, rfl, rfl, fun _ => rfl⟩
  · obtain ⟨hw, ha⟩ := hbuild _ rfl
    obtain ⟨m, rfl⟩ := hw.exists_decimal (hnumber w rfl)
    obtain ⟨a, rfl⟩ := exists_optional_decimal ha hadditional
    refine ⟨some ⟨m, a⟩, rfl, rfl, fun mark => ?_⟩
    cases a <;> rfl

end Family

theorem Decimal.isNumberWord (m : Decimal) : Family.IsNumberWord m.digits :=
  ⟨m.ne_nil, fun _ h => m.isDigit h⟩

theorem Leading.isLeadingWord (m : Leading) : Family.IsLeadingWord m.digits :=
  ⟨m.isNumberWord, m.leads⟩

namespace ReleaseName

theorem exists_tagged {x : Suffix} (h : ¬ x.IsSettled) :
    ∃ (p : Tag) (y : Option Suffix), ending (some p) none y = ending none none (some x) := by
  rw [Suffix.IsSettled, Classical.not_imp] at h
  obtain ⟨halpha, hstuck⟩ := h
  obtain ⟨p, hp⟩ := x.exists_tag halpha
  have hsplit : p.text ++ x.text.dropWhile Char.isAlphanum = x.text := by
    rw [hp, List.takeWhile_append_dropWhile]
  have hchars : ∀ d ∈ x.text.dropWhile Char.isAlphanum, ReleaseCatalog.isSuffixChar d = true :=
    fun d hd => x.isSuffixChar d ((List.dropWhile_suffix _).subset hd)
  have hhead := List.head?_dropWhile_not Char.isAlphanum x.text
  cases hrest : x.text.dropWhile Char.isAlphanum with
  | nil =>
    rw [hrest, List.append_nil] at hsplit
    refine ⟨p, none, ?_⟩
    simp [ending, hsplit]
  | cons d u =>
    rw [hrest] at hchars hhead hstuck hsplit
    have hd : d = '-' := by
      have hd := hchars d (List.mem_cons_self ..)
      have hnot : d.isAlphanum = false := by simpa using hhead
      have hdot : d ≠ '.' := fun hdot => hstuck (.inl ⟨u, by rw [hdot]⟩)
      rw [ReleaseCatalog.isSuffixChar, hnot] at hd
      simpa [hdot] using hd
    subst hd
    have hu : u ≠ [] := fun hu => hstuck (.inr (by rw [hu]))
    refine ⟨p, some ⟨u, hu, fun d hd => hchars d (List.mem_cons_of_mem _ hd)⟩, ?_⟩
    simp [ending, ← hsplit]

/-- What a version string has behind its numbers can be settled. -/
theorem exists_settled (opening : Opening) (major : Leading) (numbers : Numbers)
    (tag : Option Tag) (build : Option Build) (suffix : Option Suffix) :
    ∃ r : ReleaseName, r.family = .jep223 ∧
      r.text = (jep223 opening major numbers tag build suffix).text ∧ r.IsSettled := by
  by_cases h : (jep223 opening major numbers tag build suffix).IsSettled
  · exact ⟨_, rfl, rfl, h⟩
  · rcases tag with _ | p <;> rcases build with _ | b <;> rcases suffix with _ | x
    case neg.none.none.some =>
      obtain ⟨p, y, hy⟩ := exists_tagged h
      refine ⟨jep223 opening major numbers (some p) none y, rfl, ?_, trivial⟩
      rw [text, text, hy]
    all_goals exact absurd trivial h

theorem exists_name_of_writes {f : Family} {sp : Spelling} {w : List Char} (hw : f.Writes sp w)
    (hf : f ≠ .jep223) (h : sp.IsReadable) :
    ∃ r : ReleaseName, r.family = f ∧ r.text = w ∧ r.spelling = sp ∧ r.IsSettled := by
  obtain ⟨hnumeral, -, hs, -, hb, ha⟩ := Spelling.isReadable_iff.1 h
  cases hw with
  | nightly opening hmajor marked date =>
    obtain ⟨major, rfl⟩ := hmajor.exists_leading hnumeral
    exact ⟨nightly opening major marked date, rfl, rfl, rfl, trivial⟩
  | legacy hline hsecurity hbuild =>
    obtain ⟨line, hdigits⟩ := (Family.isLeadingWord_singleton hline).exists_leading hnumeral
    obtain ⟨security, rfl⟩ := hsecurity.exists_decimal (hs _ rfl)
    obtain ⟨build, hword, hadditional, hbuild⟩ :=
      Family.BuildWords.exists_build hbuild hb ha
    refine ⟨legacy line (by rw [hdigits]; rfl) security build, rfl, ?_, ?_, trivial⟩
    · rw [text, hbuild, hdigits]
      rfl
    · rw [spelling, hword, hadditional, hdigits]
  | update jdk hmajor hsecurity hbuild =>
    obtain ⟨major, rfl⟩ := hmajor.exists_leading hnumeral
    obtain ⟨security, rfl⟩ := hsecurity.exists_decimal (hs _ rfl)
    obtain ⟨build, hword, hadditional, hbuild⟩ :=
      Family.BuildWords.exists_build hbuild hb ha
    refine ⟨update jdk major security build, rfl, ?_, ?_, trivial⟩
    · rw [text, hbuild]
    · rw [spelling, hword, hadditional]
  | jep223 => exact absurd rfl hf

theorem exists_parts_of_writes {sp : Spelling} {w : List Char} (hw : Family.jep223.Writes sp w)
    (h : sp.IsReadable) :
    ∃ (opening : Opening) (major : Leading) (minor security patch : Option Decimal)
      (tag : Option Tag) (build : Option Build) (suffix : Option Suffix),
      sp =
        { major := major.digits
          minor := minor.map (·.digits)
          security := security.map (·.digits)
          patch := patch.map (·.digits)
          pre := tag.map (·.text)
          build := buildWord build
          additional := additionalWord build
          optional := suffix.map (·.text) } ∧
      w = opening.text ++ (major.digits ++
        (dotted minor ++ (dotted security ++ dotted patch) ++ ending tag build suffix)) := by
  obtain ⟨hnumeral, hm, hs, hp, hb, ha⟩ := Spelling.isReadable_iff.1 h
  cases hw with
  | jep223 opening hmajor hminor hsecurity hpatch hpre hbuild hoptional =>
    obtain ⟨major, rfl⟩ := hmajor.exists_leading hnumeral
    obtain ⟨minor, rfl⟩ := Family.exists_optional_decimal hminor hm
    obtain ⟨security, rfl⟩ := Family.exists_optional_decimal hsecurity hs
    obtain ⟨patch, rfl⟩ := Family.exists_optional_decimal hpatch hp
    obtain ⟨build, hword, hadditional, hbuild⟩ :=
      Family.BuildWords.exists_build hbuild hb ha
    obtain ⟨tag, rfl⟩ := Family.exists_map_eq hpre
    obtain ⟨suffix, rfl⟩ := Family.exists_map_eq hoptional
    refine ⟨opening, major, minor, security, patch, tag, build, suffix, ?_, ?_⟩
    · rw [hword, hadditional]
    · rw [ending, hbuild]
      simp only [Family.afterDot_digits, List.append_assoc]
      cases tag <;> cases suffix <;> rfl

/-- A text that a family writes, with numbers that can be read, is a name of the grammar. -/
theorem exists_of_writes {f : Family} {sp : Spelling} {w : List Char} (hw : f.Writes sp w)
    (h : sp.IsReadable) : ∃ r : ReleaseName, r.family = f ∧ r.text = w ∧ r.IsSettled := by
  by_cases hf : f = .jep223
  · subst hf
    obtain ⟨opening, major, minor, security, patch, tag, build, suffix, -, rfl⟩ :=
      exists_parts_of_writes hw h
    obtain ⟨numbers, hnumbers⟩ := Numbers.exists_text_eq minor security patch
    obtain ⟨r, hfamily, htext, hsettled⟩ :=
      exists_settled opening major numbers tag build suffix
    exact ⟨r, hfamily, by rw [htext, text, hnumbers], hsettled⟩
  · obtain ⟨r, hfamily, htext, -, hsettled⟩ := exists_name_of_writes hw hf h
    exact ⟨r, hfamily, htext, hsettled⟩

end ReleaseName

end ReleaseCatalog

import ReleaseCatalog.Proofs.Version.Recognition

namespace ReleaseCatalog

/-- Parts whose canonical string can be read back: a line, no optional suffix, and no tag but one
that is no brand. -/
structure Components.IsPlain (c : Components) : Prop where
  one_le_major : 1 ≤ c.major
  optional_eq : c.optional = none
  isTag : ∀ t ∈ c.pre, Family.IsTagWord t.toList
  not_brand : ∀ t ∈ c.pre, t.toList.map Char.toLower ∉ brands

namespace Components

theorem map_value_ofUInt32 (x : Option UInt32) :
    (x.map Decimal.ofUInt32).map (·.value) = x := by
  cases x <;> simp

theorem dotted_ofUInt32 (x : Option UInt32) :
    dotted (x.map Decimal.ofUInt32) = x.elim [] fun n => '.' :: decimal n := by
  cases x <;> rfl

/-- The build as the canonical string has it: nothing where it is zero and no number follows. -/
def writtenBuild (c : Components) : Option Build :=
  if 0 < c.build || c.additional.isSome then
    some ⟨.ofUInt32 c.build, c.additional.map .ofUInt32⟩
  else none

theorem buildValue_writtenBuild (c : Components) :
    ReleaseName.buildValue c.writtenBuild = c.build := by
  rw [writtenBuild]
  split
  · exact Decimal.value_ofUInt32 c.build
  · next h =>
    rw [Bool.or_eq_true, not_or, decide_eq_true_eq] at h
    exact (UInt32.le_zero_iff.1 (UInt32.not_lt.1 h.1)).symm

theorem additionalValue_writtenBuild (c : Components) :
    ReleaseName.additionalValue c.writtenBuild = c.additional := by
  rw [writtenBuild]
  split
  · exact map_value_ofUInt32 c.additional
  · next h =>
    rw [Bool.or_eq_true, not_or] at h
    exact (Option.not_isSome_iff_eq_none.1 h.2).symm

theorem text_writtenBuild {c : Components} (h : c.optional = none) :
    c.writtenBuild.elim [] (Build.text ['+']) = c.buildText := by
  rw [writtenBuild, buildText, h, Option.isSome_none, Bool.or_false]
  split
  · show ['+'] ++ (decimal c.build ++ dotted (c.additional.map Decimal.ofUInt32)) = _
    rw [dotted_ofUInt32]
    simp
  · rfl

/-- The canonical string of plain parts is a version string of the grammar. -/
theorem IsPlain.exists_name {c : Components} (h : c.IsPlain) :
    ∃ opening major numbers tag build, ∃ r : ReleaseName,
      r = .jep223 opening major numbers tag build none ∧ r.text = c.text ∧
        r.version = c.version ∧ r.HasNoBrand := by
  obtain ⟨tag, htag⟩ : ∃ tag : Option Tag, tag.map (fun p => String.ofList p.text) = c.pre := by
    apply Family.exists_map_eq
    intro t ht
    obtain ⟨p, hp⟩ := h.isTag t ht
    exact ⟨p, by rw [hp, String.ofList_toList]⟩
  let numbers : Numbers :=
    { minor := some (.ofUInt32 c.minor), security := some (.ofUInt32 c.security)
      patch := c.patch.map .ofUInt32
      minor_of_security := fun _ => rfl, security_of_patch := fun _ => rfl }
  refine ⟨.bare, .ofUInt32 c.major h.one_le_major, numbers, tag, c.writtenBuild, _, rfl, ?_, ?_, ?_⟩
  · have hpre : (tag.elim [] fun p => '-' :: p.text) = c.pre.elim [] fun p => '-' :: p.toList := by
      rw [← htag]
      cases tag <;> simp
    simp only [ReleaseName.text, ReleaseName.ending, Numbers.text, numbers, dotted_ofUInt32,
      text_writtenBuild h.optional_eq, hpre, Option.elim_none, List.append_nil]
    simp [Components.text, dotted, Opening.text, Leading.ofUInt32, Decimal.ofUInt32]
  · rw [ReleaseName.version]
    congr 1
    simp only [ReleaseName.components, buildValue_writtenBuild, additionalValue_writtenBuild,
      numbers, map_value_ofUInt32, htag]
    simp [Leading.ofUInt32, ← h.optional_eq]
  · intro p hp
    have hpre : String.ofList p.text ∈ c.pre := by
      rw [← htag, Option.mem_def.1 hp]
      rfl
    have hbrand := h.not_brand _ hpre
    rwa [String.toList_ofList] at hbrand

theorem IsPlain.parse_text {c : Components} (h : c.IsPlain) :
    Version.parse .whole false (String.ofList c.text) = .ok c.version := by
  obtain ⟨opening, major, numbers, tag, build, r, hr, htext, hversion, hbrand⟩ := h.exists_name
  have hsuffix : r.HasNoSuffix := by rw [hr]; rfl
  have hupdate : Version.found .whole .update r.text = [] := by
    rw [Version.found, Text.Reading.whole?, hr, ReleaseName.updateName_text_eq_nil]
    rfl
  rw [← htext, Version.parse_eq_ok, ReleaseName.normalizeName_text_alone hbrand hsuffix, ← hversion]
  exact ReleaseName.select?_text hsuffix (by simp) fun _ => hupdate

end Components

namespace Family

theorem Writes.isLeadingWord_major {f : Family} {sp : Spelling} {w : List Char}
    (h : f.Writes sp w) : IsLeadingWord sp.major := by
  cases h with
  | nightly opening hmajor => exact hmajor
  | legacy hline => exact isLeadingWord_singleton hline
  | update jdk hmajor => exact hmajor
  | jep223 opening hmajor => exact hmajor

theorem Writes.isTagWord_pre {f : Family} {sp : Spelling} {w : List Char}
    (h : f.Writes sp w) : ∀ t ∈ sp.pre, IsTagWord t := by
  cases h with
  | nightly => simp
  | legacy => simp
  | update => simp
  | jep223 opening hmajor hminor hsecurity hpatch hpre => exact hpre

end Family

namespace Version

theorem exists_writes_of_mem_found {extent : Extent} {f : Family} {s : List Char} {v : Version}
    (h : v ∈ found extent f s) : ∃ sp w, f.Writes sp w ∧ sp.version? = some v := by
  cases extent with
  | whole =>
    obtain ⟨sp, hsp, hv⟩ := List.mem_filterMap.1 h
    rw [Option.mem_toList] at hsp
    obtain ⟨w, -, hw⟩ := Family.writes_of_mem (Text.Reading.mem_of_whole? hsp)
    exact ⟨sp, w, hw, hv⟩
  | anywhere =>
    obtain ⟨sp, hsp, hv⟩ := List.mem_filterMap.1 h
    obtain ⟨u, t, -, hname⟩ := Family.exists_of_mem_namesFrom hsp
    obtain ⟨w, -, hw⟩ := Family.writes_of_mem hname
    exact ⟨sp, w, hw, hv⟩

/-- What every version that is read has: a line, the canonical string of its parts, and no tag but
one of letters and digits that a letter begins. -/
theorem of_parse {extent : Extent} {p : Bool} {s : String} {v : Version}
    (h : parse extent p s = .ok v) :
    1 ≤ v.major ∧ v = v.toComponents.version ∧ ∀ t ∈ v.pre, Family.IsTagWord t.toList := by
  obtain ⟨f, hfound, -⟩ := exists_of_select? (parse_eq_ok.1 h)
  obtain ⟨sp, w, hw, hv⟩ := exists_writes_of_mem_found hfound
  obtain ⟨hread, rfl⟩ := Spelling.version?_eq_some_iff.1 hv
  refine ⟨?_, rfl, ?_⟩
  · obtain ⟨m, hm⟩ := hw.isLeadingWord_major.exists_leading (Spelling.isReadable_iff.1 hread).1
    show 1 ≤ numeralValue sp.major
    rw [← hm]
    exact m.one_le_value
  · intro t ht
    obtain ⟨u, hu, rfl⟩ := Option.map_eq_some_iff.1 ht
    rw [String.toList_ofList]
    exact hw.isTagWord_pre u hu

/-- Canonical strings are read back, and all that is read has its canonical string. -/
theorem parse_canonical :
    (∀ c : Components, c.IsPlain → parse .whole false c.version.canonical = .ok c.version) ∧
      ∀ extent p s v, parse extent p s = .ok v →
        1 ≤ v.major ∧ v = v.toComponents.version ∧ (∀ t ∈ v.pre, Family.IsTagWord t.toList) ∧
          (v.optional = none → (∀ t ∈ v.pre, t.toList.map Char.toLower ∉ brands) →
            parse .whole false v.canonical = .ok v) := by
  refine ⟨fun c hc => hc.parse_text, ?_⟩
  intro extent p s v h
  obtain ⟨hmajor, hcanonical, htag⟩ := of_parse h
  refine ⟨hmajor, hcanonical, htag, ?_⟩
  intro hoptional hbrand
  rw [hcanonical]
  exact Components.IsPlain.parse_text ⟨hmajor, hoptional, htag, hbrand⟩

/-- A tagged build is read back from its canonical string, as is what a longer name is read as. -/
theorem parse_canonical_tagged :
    parse .whole false "11.0.7-ea+9" =
        .ok ⟨⟨11, 0, 7, some "ea", none, 9, none, none⟩, "11.0.7-ea+9"⟩ ∧
      parse .whole false "8.0.212+3" =
        .ok ⟨⟨8, 0, 212, none, none, 3, none, none⟩, "8.0.212+3"⟩ := by
  let c : Components := ⟨11, 0, 7, some "ea", none, 9, none, none⟩
  have hversion : c.version = ⟨c, "11.0.7-ea+9"⟩ := by decide +kernel
  have htag : Family.IsTagWord "ea".toList := ⟨⟨'e', ['a'], by decide, by simp⟩, rfl⟩
  have hplain : c.IsPlain := by
    refine ⟨by decide, rfl, ?_, ?_⟩
    · rintro _ ⟨⟩
      exact htag
    · rintro _ ⟨⟩
      decide
  have hcanonical := parse_canonical.1 c hplain
  rw [hversion] at hcanonical
  have hread : parse .anywhere true "jdk8u212-b03" =
      .ok ⟨⟨8, 0, 212, none, none, 3, none, none⟩, "8.0.212+3"⟩ := by decide +kernel
  obtain ⟨-, -, -, hback⟩ := parse_canonical.2 _ _ _ _ hread
  exact ⟨hcanonical, hback rfl (by simp)⟩

end Version

end ReleaseCatalog

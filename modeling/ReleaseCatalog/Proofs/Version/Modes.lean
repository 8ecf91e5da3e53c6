import ReleaseCatalog.Proofs.Version.Canonical

namespace ReleaseCatalog

open Text (isDigit)

namespace Version

/-- The version with the beginning of its suffix for its tag and without the suffix, if it has no
tag and its suffix begins as a tag does. -/
def withSuffixAsTag (v : Version) : Version :=
  match v.pre, v.optional with
  | none, some o =>
    if o.toList.head?.any Char.isAlpha then
      Components.version { v.toComponents with
        pre := some (String.ofList (o.toList.takeWhile Char.isAlphanum)), optional := none }
    else v
  | _, _ => v

/-- What a scan of the text makes of a version that the whole text spells. A suffix behind a build
cannot be taken for a tag. -/
def scannedIn (s : List Char) (v : Version) : Version := if '+' ∈ s then v else v.withSuffixAsTag

theorem withSuffixAsTag_eq {v : Version}
    (h : v.pre = none → ∀ o ∈ v.optional, ∀ c ∈ o.toList.head?, c.isAlpha = false) :
    v.withSuffixAsTag = v := by
  rw [withSuffixAsTag]
  split
  · next o hpre hoptional =>
    have ho := h hpre o hoptional
    rw [if_neg]
    rw [Option.any_eq_true_iff_get]
    rintro ⟨hsome, halpha⟩
    rw [ho _ (Option.get_mem hsome)] at halpha
    cases halpha
  · rfl

theorem scannedIn_eq {s : List Char} {v : Version}
    (h : '+' ∉ s → v.pre = none → ∀ o ∈ v.optional, ∀ c ∈ o.toList.head?, c.isAlpha = false) :
    v.scannedIn s = v := by
  rw [scannedIn]
  split
  · rfl
  · next hplus => exact withSuffixAsTag_eq (h hplus)

theorem isPlausible_scannedIn (s : List Char) (v : Version) :
    (v.scannedIn s).isPlausible = v.isPlausible := by
  rw [scannedIn, withSuffixAsTag]
  split
  · rfl
  · split
    · split <;> rfl
    · rfl

/-- Only a version string can have a suffix that a scan takes for a tag. -/
theorem scannedIn_of_mem_found {extent : Extent} {f : Family} (hf : f ≠ .jep223) {s : List Char}
    {v : Version} (h : v ∈ found extent f s) (n : List Char) : v.scannedIn n = v := by
  obtain ⟨sp, w, hw, hv⟩ := exists_writes_of_mem_found h
  obtain ⟨-, rfl⟩ := Spelling.version?_eq_some_iff.1 hv
  apply scannedIn_eq
  intro _ _ o ho c hc
  obtain ⟨u, hu, rfl⟩ := Option.map_eq_some_iff.1 ho
  rw [String.toList_ofList] at hc
  cases hw with
  | nightly opening hmajor marked date =>
    obtain rfl := Option.some.inj hu
    have hyear : date.year ≠ [] := List.ne_nil_of_length_pos (by rw [date.length_year]; decide)
    rw [Stamp.text, List.head?_append_of_ne_nil _ hyear] at hc
    have hdigit := date.isDigit_year c (List.mem_of_head? hc)
    apply eq_false_of_ne_true
    intro halpha
    rw [Text.isDigit_of_isAlpha halpha] at hdigit
    cases hdigit
  | legacy => cases hu
  | update => cases hu
  | jep223 => exact absurd rfl hf

end Version

namespace ReleaseName

theorem exists_of_mem_found_whole {f : Family} {s : List Char} {v : Version}
    (h : v ∈ Version.found .whole f s) :
    ∃ r : ReleaseName, r.family = f ∧ r.text = s ∧ r.version = v ∧ r.IsSettled := by
  obtain ⟨sp, hsp, hv⟩ := List.mem_filterMap.1 h
  rw [Option.mem_toList] at hsp
  obtain ⟨w, hw, hwrites⟩ := Family.writes_of_mem (Text.Reading.mem_of_whole? hsp)
  rw [List.append_nil] at hw
  obtain ⟨hread, -⟩ := Spelling.version?_eq_some_iff.1 hv
  obtain ⟨r, hfamily, htext, hsettled⟩ := exists_of_writes hwrites hread
  subst hw
  have hspelling := whole?_text hsettled
  rw [hfamily, htext, Option.mem_def.1 hsp] at hspelling
  refine ⟨r, hfamily, htext, ?_, hsettled⟩
  have hversion := r.version?_spelling
  rw [← Option.some.inj hspelling, hv] at hversion
  exact (Option.some.inj hversion).symm

theorem scannedIn_version {r : ReleaseName} (h : ¬ r.HasTagLikeSuffix) :
    r.version.scannedIn r.text = r.version := by
  by_cases hfamily : r.family = .jep223
  · rcases r with _ | _ | _ | ⟨opening, major, numbers, tag, build, suffix⟩
    case jep223 =>
      apply Version.scannedIn_eq
      intro hplus hpre o ho c hc
      rcases tag with _ | p
      · rcases build with _ | b
        · obtain ⟨x, rfl, rfl⟩ := Option.map_eq_some_iff.1 ho
          rw [String.toList_ofList] at hc
          apply eq_false_of_ne_true
          intro halpha
          apply h
          intro d hd
          rw [Option.mem_def.1 hc] at hd
          cases hd
          exact halpha
        · exact absurd (by simp [text, ending, Build.text]) hplus
      · cases hpre
    all_goals cases hfamily
  · have hmem : r.version ∈ Version.found .whole r.family r.text := by
      rw [found_whole (isSettled_of_not_hasTagLikeSuffix h)]
      exact List.mem_singleton_self _
    exact Version.scannedIn_of_mem_found hfamily hmem r.text

theorem plus_not_mem_text (opening : Opening) (major : Leading) (numbers : Numbers) (x : Suffix) :
    '+' ∉ (jep223 opening major numbers none none x).text := by
  have hnumeric : isNumeric '+' = false := by decide
  have hopening : '+' ∉ opening.text := by cases opening <;> decide
  have hmajor : '+' ∉ major.digits :=
    List.count_eq_zero.1 (count_of_isNumeric hnumeric fun _ hc => major.isNumeric hc)
  have hnumbers : '+' ∉ numbers.text :=
    List.count_eq_zero.1 (count_of_isNumeric hnumeric fun _ hc => numbers.isNumeric hc)
  have hsuffix : '+' ∉ x.text := by
    intro hmem
    have hchar := x.isSuffixChar _ hmem
    revert hchar
    decide
  simp [text, ending, hopening, hmajor, hnumbers, hsuffix]

/-- A scan of a name finds the version first that it makes of the name's. -/
theorem exists_found_anywhere {r : ReleaseName} (h : r.IsSettled) :
    ∃ rest, Version.found .anywhere r.family r.text = r.version.scannedIn r.text :: rest := by
  by_cases hsuffix : r.HasTagLikeSuffix
  · rcases r with _ | _ | _ | ⟨opening, major, numbers, _ | p, _ | b, _ | x⟩
    case jep223.none.none.some =>
      obtain ⟨p, hp⟩ := x.exists_tag hsuffix
      let r : ReleaseName := jep223 opening major numbers (some p) none none
      have hfirst : Text.Reading.first? Family.jep223Name
          (jep223 opening major numbers none none x).text =
            some (r.spelling, x.text.dropWhile Char.isAlphanum) := by
        rw [first?_text_of_hasTagLikeSuffix hsuffix h, ← hp]
        rfl
      have hscanned : (jep223 opening major numbers none none x).version.scannedIn
          (jep223 opening major numbers none none x).text = r.version := by
        obtain ⟨c, hc⟩ : ∃ c, x.text.head? = some c := ⟨_, List.head?_eq_some_head x.ne_nil⟩
        rw [Version.scannedIn, if_neg (plus_not_mem_text opening major numbers x)]
        simp only [Version.withSuffixAsTag, version, components, Components.version, r,
          Option.map_none, Option.map_some, String.toList_ofList, hc, Option.any_some,
          hsuffix c hc, if_true, hp]
      obtain ⟨rest, hrest⟩ := Family.exists_names_of_first? (f := .jep223) hfirst
      refine ⟨rest.filterMap Spelling.version?, ?_⟩
      rw [hscanned]
      show List.filterMap _ (Family.names .jep223 _) = _
      rw [hrest, List.filterMap_cons, r.version?_spelling]
    all_goals exact hsuffix.elim
  · rw [scannedIn_version hsuffix]
    exact ⟨[], found_text hsuffix .anywhere⟩

theorem hasNoSuffix_of_family_ne {r : ReleaseName} (h : r.family ≠ .jep223) : r.HasNoSuffix := by
  cases r with
  | jep223 => exact absurd rfl h
  | _ => trivial

end ReleaseName

namespace Version

/-- Whether the families that a scan tries before that of version strings leave the version to it:
what either of them finds first among the plausible is the version itself. -/
def IsLeftTo (s : List Char) (v : Version) : Prop :=
  ∀ f, f = .nightly ∨ f = .update → ∀ w, (found .anywhere f s).find? isPlausible = some w → w = v

theorem isLeftTo_of_not_anchored {s : List Char} (hnightly : ¬ Family.nightly.Anchored s)
    (hupdate : ¬ Family.update.Anchored s) (v : Version) : v.IsLeftTo s := by
  rintro f (rfl | rfl) w hw
  · rw [found_eq_nil hnightly] at hw
    cases hw
  · rw [found_eq_nil hupdate] at hw
    cases hw

theorem select?_anywhere {r : ReleaseName} (hr : r.IsSettled)
    (hv : r.version.isPlausible = true)
    (hleft : r.family = .jep223 → r.version.IsLeftTo r.text) :
    select? .anywhere true r.text = some (r.version.scannedIn r.text) := by
  have hok : (!true || (r.version.scannedIn r.text).isPlausible) = true := by
    rw [isPlausible_scannedIn]
    exact hv
  apply select?_eq_some ?_ (r.exists_found_anywhere hr) hok
  intro g hg w hw
  by_cases hfamily : r.family = .jep223
  · have hself (hg : g = .nightly ∨ g = .update) : w = r.version.scannedIn r.text := by
      have hne : g ≠ .jep223 := by rcases hg with rfl | rfl <;> decide
      have heq := hleft hfamily g hg w hw
      rw [← heq, scannedIn_of_mem_found hne (List.mem_of_find?_eq_some hw)]
    rw [hfamily] at hg
    rcases List.mem_cons.1 hg with rfl | hg
    · exact hself (.inl rfl)
    · rcases List.mem_cons.1 hg with rfl | hg
      · rw [found_eq_nil (ReleaseName.not_anchored_legacy (.inr hfamily))] at hw
        cases hw
      · exact hself (.inr (List.mem_singleton.1 hg))
  · have hsuffix := ReleaseName.hasNoSuffix_of_family_ne hfamily
    rw [ReleaseName.found_earlier hsuffix (fun h => absurd h hfamily) hg] at hw
    cases hw

/-- What the whole of a text spells, a scan of it finds, with a suffix for the tag where it can be
taken for one, unless an earlier family finds a version of its own inside a version string. -/
theorem parse_anywhere_of_parse_whole {s : String} {v : Version}
    (h : parse .whole true s = .ok v)
    (hleft : (∃ f, f ≠ .jep223 ∧ v ∈ found .whole f (normalizeName s)) ∨
      v.IsLeftTo (normalizeName s)) :
    parse .anywhere true s = .ok (v.scannedIn (normalizeName s)) := by
  obtain ⟨f, hfound, hv⟩ := exists_of_select? (parse_eq_ok.1 h)
  have hscan {f : Family} (hfound : v ∈ found .whole f (normalizeName s))
      (hleft : f = .jep223 → v.IsLeftTo (normalizeName s)) :
      parse .anywhere true s = .ok (v.scannedIn (normalizeName s)) := by
    obtain ⟨r, rfl, htext, rfl, hr⟩ := ReleaseName.exists_of_mem_found_whole hfound
    rw [← htext] at hleft
    rw [parse_eq_ok, ← htext]
    exact select?_anywhere hr hv hleft
  rcases hleft with ⟨g, hg, hmem⟩ | hleft
  · exact hscan hmem fun hjep => absurd hjep hg
  · exact hscan hfound fun _ => hleft

/-- A suffix that nothing could take for a tag or a name, and one that a scan takes for a tag. -/
theorem parse_anywhere_suffixes :
    parse .anywhere true "11.0.4+11-LTS" =
        .ok ⟨⟨11, 0, 4, none, none, 11, none, some "LTS"⟩, "11.0.4+11.LTS"⟩ ∧
      parse .anywhere true "11-ea.x" =
        .ok ⟨⟨11, 0, 0, some "ea", none, 0, none, none⟩, "11.0.0-ea"⟩ := by
  have hleft {n : List Char} (hhyphens : n.count '-' < 5) (hu : 'u' ∉ n) (v : Version) :
      v.IsLeftTo n := by
    apply isLeftTo_of_not_anchored (Nat.not_le_of_lt hhyphens)
    rintro ⟨c, d, -, -, h⟩
    exact hu (h.subset (by simp))
  constructor
  · have h : parse .whole true "11.0.4+11-LTS" =
        .ok ⟨⟨11, 0, 4, none, none, 11, none, some "LTS"⟩, "11.0.4+11.LTS"⟩ := by decide +kernel
    have hn : normalizeName "11.0.4+11-LTS" = "11.0.4+11-LTS".toList := by decide +kernel
    have hscan := parse_anywhere_of_parse_whole h
      (.inr (by rw [hn]; exact hleft (by decide) (by decide) _))
    rw [hscan, hn]
    decide +kernel
  · have h : parse .whole true "11-ea.x" =
        .ok ⟨⟨11, 0, 0, none, none, 0, none, some "ea.x"⟩, "11.0.0+0.ea.x"⟩ := by decide +kernel
    have hn : normalizeName "11-ea.x" = "11-ea.x".toList := by decide +kernel
    have hscan := parse_anywhere_of_parse_whole h
      (.inr (by rw [hn]; exact hleft (by decide) (by decide) _))
    rw [hscan, hn]
    decide +kernel

/-- A scan can take a suffix for a tag, and find an update in one. -/
theorem parse_modes_differ :
    (parse .whole true "11-ea.x" =
        .ok ⟨⟨11, 0, 0, none, none, 0, none, some "ea.x"⟩, "11.0.0+0.ea.x"⟩ ∧
      parse .anywhere true "11-ea.x" =
        .ok ⟨⟨11, 0, 0, some "ea", none, 0, none, none⟩, "11.0.0-ea"⟩) ∧
    (parse .whole true "11.0.4+11-8u212" =
        .ok ⟨⟨11, 0, 4, none, none, 11, none, some "8u212"⟩, "11.0.4+11.8u212"⟩ ∧
      parse .anywhere true "11.0.4+11-8u212" =
        .ok ⟨⟨8, 0, 212, none, none, 0, none, none⟩, "8.0.212"⟩) ∧
    ¬ ∀ s v, parse .whole true s = .ok v → parse .anywhere true s = .ok v := by
  have hwhole : parse .whole true "11-ea.x" =
      .ok ⟨⟨11, 0, 0, none, none, 0, none, some "ea.x"⟩, "11.0.0+0.ea.x"⟩ := by decide +kernel
  have hanywhere : parse .anywhere true "11-ea.x" =
      .ok ⟨⟨11, 0, 0, some "ea", none, 0, none, none⟩, "11.0.0-ea"⟩ := by decide +kernel
  refine ⟨⟨hwhole, hanywhere⟩, ⟨by decide +kernel, by decide +kernel⟩, ?_⟩
  intro hagree
  have heq := hagree _ _ hwhole
  rw [hanywhere] at heq
  revert heq
  decide

end Version

end ReleaseCatalog

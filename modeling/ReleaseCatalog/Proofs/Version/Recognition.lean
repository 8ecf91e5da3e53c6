import ReleaseCatalog.Proofs.Version.Apart

namespace ReleaseCatalog

open Text (isBlank isDigit)

/-- The families that a name is tried against before this one. -/
def Family.earlier : Family → List Family
  | nightly => []
  | legacy => [nightly]
  | update => [nightly, legacy]
  | jep223 => [nightly, legacy, update]

theorem Family.exists_all_eq (f : Family) : ∃ after, Family.all = f.earlier ++ f :: after := by
  cases f <;> exact ⟨_, rfl⟩

theorem Family.eq_earlier {f : Family} {before after : List Family}
    (h : Family.all = before ++ f :: after) : before = f.earlier := by
  rcases before with _ | ⟨_, _ | ⟨_, _ | ⟨_, _ | ⟨_, before⟩⟩⟩⟩
  case cons.cons.cons.cons =>
    have hlen := congrArg List.length h
    simp [Family.all] at hlen
  all_goals
    cases h
    rfl

namespace Version

theorem findSome?_find?_append {ok : Version → Bool} {v : Version} {f : Family}
    {found : Family → List Version} {before after : List Family}
    (hbefore : ∀ g ∈ before, ∀ w, (found g).find? ok = some w → w = v)
    (hf : (found f).find? ok = some v) :
    (before ++ f :: after).findSome? (fun g => (found g).find? ok) = some v := by
  induction before with
  | nil => rw [List.nil_append, List.findSome?_cons, hf]
  | cons g before ih =>
    rw [List.cons_append, List.findSome?_cons]
    cases hg : (found g).find? ok with
    | none => exact ih fun h hh => hbefore h (List.mem_cons_of_mem _ hh)
    | some w => rw [hbefore g (List.mem_cons_self ..) w hg]

theorem select?_eq_some {extent : Extent} {p : Bool} {s : List Char} {v : Version} {f : Family}
    (hbefore : ∀ g ∈ f.earlier, ∀ w,
      (found extent g s).find? (fun w => !p || w.isPlausible) = some w → w = v)
    (hf : ∃ rest, found extent f s = v :: rest) (hv : (!p || v.isPlausible) = true) :
    select? extent p s = some v := by
  obtain ⟨rest, hrest⟩ := hf
  obtain ⟨after, hall⟩ := f.exists_all_eq
  rw [select?, hall]
  apply findSome?_find?_append hbefore
  rw [hrest]
  exact List.find?_cons_of_pos hv

/-- A version is selected where its family finds it first, and the families before it find none. -/
theorem select?_eq_some_iff {extent : Extent} {p : Bool} {s : List Char} {v : Version} :
    select? extent p s = some v ↔
      ∃ f, (found extent f s).find? (fun v => !p || v.isPlausible) = some v ∧
        ∀ g ∈ f.earlier, (found extent g s).find? (fun v => !p || v.isPlausible) = none := by
  rw [select?, List.findSome?_eq_some_iff]
  constructor
  · rintro ⟨before, f, after, hall, hf, hbefore⟩
    rw [Family.eq_earlier hall] at hbefore
    exact ⟨f, hf, hbefore⟩
  · rintro ⟨f, hf, hbefore⟩
    obtain ⟨after, hall⟩ := f.exists_all_eq
    exact ⟨f.earlier, f, after, hall, hf, hbefore⟩

theorem exists_of_select? {extent : Extent} {p : Bool} {s : List Char} {v : Version}
    (h : select? extent p s = some v) :
    ∃ f, v ∈ found extent f s ∧ (!p || v.isPlausible) = true := by
  obtain ⟨f, hf, -⟩ := select?_eq_some_iff.1 h
  have hok := List.find?_some (p := fun v : Version => !p || v.isPlausible) hf
  exact ⟨f, List.mem_of_find?_eq_some hf, hok⟩

theorem parse_eq_ok {extent : Extent} {p : Bool} {s : String} {v : Version} :
    parse extent p s = .ok v ↔ select? extent p (normalizeName s) = some v := by
  rw [parse]
  cases select? extent p (normalizeName s) <;> simp

end Version

namespace ReleaseName

theorem isSettled_of_not_hasTagLikeSuffix {r : ReleaseName} (h : ¬ r.HasTagLikeSuffix) :
    r.IsSettled := by
  rcases r with _ | _ | _ | ⟨opening, major, numbers, _ | p, _ | b, _ | x⟩
  case jep223.none.none.some => exact fun halpha => absurd halpha h
  all_goals trivial

theorem not_hasTagLikeSuffix {r : ReleaseName} (h : r.HasNoSuffix) : ¬ r.HasTagLikeSuffix := by
  rcases r with _ | _ | _ | ⟨opening, major, numbers, tag, build, suffix⟩
  case jep223 =>
    obtain rfl : suffix = none := h
    cases tag <;> cases build <;> exact id
  all_goals exact id

theorem found_whole {r : ReleaseName} (h : r.IsSettled) :
    Version.found .whole r.family r.text = [r.version] := by
  rw [Version.found, whole?_text h]
  simp [version?_spelling]

theorem found_text {r : ReleaseName} (h : ¬ r.HasTagLikeSuffix) (extent : Extent) :
    Version.found extent r.family r.text = [r.version] := by
  cases extent with
  | whole => exact found_whole (isSettled_of_not_hasTagLikeSuffix h)
  | anywhere =>
    rw [Version.found, Family.names_of_first? (r.first?_text h)]
    simp [version?_spelling]

theorem found_earlier {r : ReleaseName} (hsuffix : r.HasNoSuffix) {extent : Extent}
    (hupdate : r.family = .jep223 → Version.found extent .update r.text = []) {g : Family}
    (hg : g ∈ r.family.earlier) : Version.found extent g r.text = [] := by
  have hnightly (h : r.family ≠ .nightly) : Version.found extent .nightly r.text = [] :=
    Version.found_eq_nil (not_anchored_nightly h hsuffix) extent
  have hlegacy (h : r.family = .update ∨ r.family = .jep223) :
      Version.found extent .legacy r.text = [] :=
    Version.found_eq_nil (not_anchored_legacy h) extent
  cases hfamily : r.family with
  | nightly =>
    rw [hfamily] at hg
    cases hg
  | legacy =>
    rw [hfamily] at hg hnightly
    obtain rfl := List.mem_singleton.1 hg
    exact hnightly (by decide)
  | update =>
    rw [hfamily] at hg hnightly hlegacy
    rcases List.mem_cons.1 hg with rfl | hg
    · exact hnightly (by decide)
    · obtain rfl := List.mem_singleton.1 hg
      exact hlegacy (.inl rfl)
  | jep223 =>
    rw [hfamily] at hg hnightly hlegacy
    rcases List.mem_cons.1 hg with rfl | hg
    · exact hnightly (by decide)
    · rcases List.mem_cons.1 hg with rfl | hg
      · exact hlegacy (.inr rfl)
      · obtain rfl := List.mem_singleton.1 hg
        exact hupdate hfamily

/-- A name is read as it was written where no earlier family finds anything in it. -/
theorem select?_text {r : ReleaseName} (hsuffix : r.HasNoSuffix) {extent : Extent} {p : Bool}
    (hv : p = true → r.version.isPlausible = true)
    (hupdate : r.family = .jep223 → Version.found extent .update r.text = []) :
    Version.select? extent p r.text = some r.version := by
  have hok : (!p || r.version.isPlausible) = true := by
    cases p with
    | false => rfl
    | true => exact hv rfl
  apply Version.select?_eq_some (f := r.family) ?_ ⟨[], ?_⟩ hok
  · intro g hg w hw
    rw [found_earlier hsuffix hupdate hg] at hw
    cases hw
  · exact found_text (not_hasTagLikeSuffix hsuffix) extent

theorem normalizeName_text {r : ReleaseName} (hbrand : r.HasNoBrand) (hsuffix : r.HasNoSuffix)
    {x y : List Char} (hx : IsAside x) (hlast : ∀ c ∈ x.getLast?, isBlank c = true)
    (hy : IsAside y) (hhead : ∀ c ∈ y.head?, isBlank c = true) :
    normalizeName (String.ofList (x ++ (r.text ++ y))) =
      Text.trimStart x ++ (r.text ++ Text.trimEnd y) :=
  normalizeName_surrounded r.text_ne_nil (fun _ h => r.isBlank_text h) r.unescaped_text
    (isUnbranded_text hbrand hsuffix) hx hlast hy hhead

theorem normalizeName_text_alone {r : ReleaseName} (hbrand : r.HasNoBrand)
    (hsuffix : r.HasNoSuffix) : normalizeName (String.ofList r.text) = r.text := by
  have h := normalizeName_text hbrand hsuffix isAside_nil (by simp) isAside_nil (by simp)
  simpa [Text.trimStart, Text.trimEnd] using h

/-- A name that the documentation lists: nothing follows its tag and build, and the tag is made of
letters and is no brand. -/
def IsDocumented : ReleaseName → Prop
  | jep223 _ _ _ tag _ suffix => suffix = none ∧ ∀ p ∈ tag,
      (∀ c ∈ p.text, c.isAlpha = true) ∧ p.text.map Char.toLower ≠ "dragonwell".toList
  | _ => True

namespace IsDocumented

theorem hasNoSuffix {r : ReleaseName} (h : r.IsDocumented) : r.HasNoSuffix := by
  cases r with
  | jep223 => exact h.1
  | _ => trivial

theorem hasNoBrand {r : ReleaseName} (h : r.IsDocumented) : r.HasNoBrand := by
  rcases r with _ | _ | _ | ⟨opening, major, numbers, tag, build, suffix⟩
  case jep223 =>
    intro p hp hbrand
    obtain ⟨hletters, hne⟩ := h.2 p hp
    rcases List.mem_cons.1 hbrand with heq | hbrand
    · have hnine : '9' ∈ p.text.map Char.toLower := by
        rw [heq]
        decide
      obtain ⟨c, hc, hlower⟩ := List.mem_map.1 hnine
      exact Text.toLower_ne_of_isAlpha (hletters c hc) (by decide) hlower
    · exact hne (List.mem_singleton.1 hbrand)
  all_goals trivial

theorem found_update {r : ReleaseName} (h : r.IsDocumented) (hfamily : r.family = .jep223)
    (extent : Extent) : Version.found extent .update r.text = [] := by
  have hdigitless : r.HasDigitlessTag := by
    cases r with
    | jep223 => exact fun p hp c hc => Text.isDigit_of_isAlpha ((h.2 p hp).1 c hc)
    | _ => cases hfamily
  exact Version.found_eq_nil (not_anchored_update hdigitless h.hasNoSuffix) extent

end IsDocumented

/-- A documented name spells its version, alone and in a text. -/
theorem parse_documented (r : ReleaseName) (hr : r.IsDocumented) (p : Bool)
    (hp : p = true → r.version.isPlausible = true) :
    Version.parse .whole p (String.ofList r.text) = .ok r.version ∧
      ∀ x y, IsAside x → IsAside y → (∀ c ∈ x.getLast?, isBlank c = true) →
        (∀ c ∈ y.head?, isBlank c = true) →
          Version.parse .anywhere p (String.ofList (x ++ (r.text ++ y))) = .ok r.version := by
  have hselect (extent : Extent) : Version.select? extent p r.text = some r.version :=
    select?_text hr.hasNoSuffix hp fun hfamily => hr.found_update hfamily extent
  constructor
  · rw [Version.parse_eq_ok, normalizeName_text_alone hr.hasNoBrand hr.hasNoSuffix]
    exact hselect .whole
  · intro x y hx hy hlast hhead
    have hx' := hx.of_infix (Text.trimStart_suffix x).isInfix
    have hy' := hy.of_infix (Text.trimEnd_prefix y).isInfix
    rw [Version.parse_eq_ok, normalizeName_text hr.hasNoBrand hr.hasNoSuffix hx hlast hy hhead]
    have hfound (f : Family) :
        Version.found .anywhere f (Text.trimStart x ++ (r.text ++ Text.trimEnd y)) =
          Version.found .anywhere f r.text :=
      congrArg (List.filterMap Spelling.version?) <|
        Family.names_surrounded f r.text (Text.isBlank_getLast?_trimStart hlast) hx'.isDigit
          (Text.isBlank_head?_trimEnd hhead) hy'.isDigit
    rw [Version.select?]
    simp only [hfound]
    exact hselect .anywhere

/-- The name `jdk-11.0.7-ea+9`. -/
def earlyAccess : ReleaseName :=
  .jep223 .hyphenated (.ofUInt32 11 (by decide))
    ⟨some (.ofUInt32 0), some (.ofUInt32 7), none, by simp, by simp⟩
    (some ⟨'e', ['a'], by decide, by simp⟩) (some ⟨.ofUInt32 9, none⟩) none

theorem parse_earlyAccess :
    Version.parse .whole true "jdk-11.0.7-ea+9" =
        .ok ⟨⟨11, 0, 7, some "ea", none, 9, none, none⟩, "11.0.7-ea+9"⟩ ∧
      Version.parse .anywhere true "Release jdk-11.0.7-ea+9\t(early access)" =
        .ok ⟨⟨11, 0, 7, some "ea", none, 9, none, none⟩, "11.0.7-ea+9"⟩ := by
  have hdocumented : earlyAccess.IsDocumented := by
    refine ⟨rfl, ?_⟩
    rintro _ ⟨⟩
    exact ⟨List.all_eq_true.1 (by decide), by decide⟩
  have htext : earlyAccess.text = "jdk-11.0.7-ea+9".toList := by decide +kernel
  have hversion : earlyAccess.version =
      ⟨⟨11, 0, 7, some "ea", none, 9, none, none⟩, "11.0.7-ea+9"⟩ := by decide +kernel
  have hparse := parse_documented earlyAccess hdocumented true (by rw [hversion]; decide)
  rw [htext, hversion] at hparse
  have hletter : ∀ brand ∈ brands, 'n' ∈ brand := by decide
  have hbefore : IsAside "Release ".toList :=
    ⟨Text.forall_eq_false (by decide), by decide, fun brand hbrand h => by
      have hmem := h.subset (hletter brand hbrand)
      revert hmem
      decide⟩
  have hafter : IsAside "\t(early access)".toList :=
    ⟨Text.forall_eq_false (by decide), by decide, fun brand hbrand h => by
      have hmem := h.subset (hletter brand hbrand)
      revert hmem
      decide⟩
  have hscan := hparse.2 _ _ hbefore hafter (by rintro _ ⟨⟩; rfl) (by rintro _ ⟨⟩; rfl)
  rw [show String.ofList _ = "Release jdk-11.0.7-ea+9\t(early access)" by decide] at hscan
  exact ⟨hparse.1, hscan⟩

end ReleaseName

end ReleaseCatalog

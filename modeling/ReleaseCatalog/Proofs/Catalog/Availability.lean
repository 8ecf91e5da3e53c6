import Mathlib.Order.Bounds.Basic
import ReleaseCatalog.Proofs.Catalog.Restriction

namespace ReleaseCatalog

section Ascending

variable {f g : UInt32} {fs gs : List UInt32}

theorem exists_getLast?_of_mem (hf : f ∈ fs) : ∃ g, fs.getLast? = some g :=
  Option.isSome_iff_exists.1 (List.getLast?_isSome.2 (List.ne_nil_of_mem hf))

theorem isGreatest_of_getLast? (h : fs.Pairwise (· < ·)) (hf : fs.getLast? = some f) :
    IsGreatest {g | g ∈ fs} f := by
  obtain ⟨before, rfl⟩ := List.getLast?_eq_some_iff.1 hf
  obtain ⟨-, -, hlt⟩ := List.pairwise_append.1 h
  refine ⟨List.mem_append_right _ (List.mem_singleton_self f), fun g hg => ?_⟩
  rcases List.mem_append.1 hg with hg | hg
  · exact UInt32.le_of_lt (hlt g hg f (List.mem_singleton_self f))
  · rw [List.mem_singleton.1 hg]
    exact UInt32.le_refl f

theorem getLast?_eq_some_iff_isGreatest (h : fs.Pairwise (· < ·)) :
    fs.getLast? = some f ↔ IsGreatest {g | g ∈ fs} f := by
  refine ⟨isGreatest_of_getLast? h, fun hf => ?_⟩
  obtain ⟨g, hg⟩ := exists_getLast?_of_mem hf.1
  have hgreatest := isGreatest_of_getLast? h hg
  rw [hg, UInt32.le_antisymm (hf.2 hgreatest.1) (hgreatest.2 hf.1)]

theorem exists_getLast?_of_subset (hgs : gs.Pairwise (· < ·)) (hsub : fs ⊆ gs)
    (hf : fs.getLast? = some f) : ∃ g ∈ gs.getLast?, f ≤ g := by
  have hmem : f ∈ gs := hsub (List.mem_of_getLast? hf)
  obtain ⟨g, hg⟩ := exists_getLast?_of_mem hmem
  exact ⟨g, hg, (isGreatest_of_getLast? hgs hg).2 hmem⟩

end Ascending

namespace Catalog

theorem isEmpty_iff {c : Catalog} : c.isEmpty = true ↔ ∀ id, c.get? id = none := by
  rw [isEmpty, Std.ExtTreeMap.isEmpty_iff, Std.ExtTreeMap.eq_empty_iff_forall_contains]
  refine forall_congr' fun id => ?_
  rw [Std.ExtTreeMap.contains_eq_isSome_getElem?, Option.isSome_eq_false_iff,
    Option.isNone_iff_eq_none, get?]

theorem any_releases (c : Catalog) : (c.releases.any fun _ => true) = !c.isEmpty := by
  rw [isEmpty, ← Std.ExtTreeMap.isEmpty_toList, releases, values]
  cases c.entries.toList <;> rfl

end Catalog

namespace Snapshot

variable {s : Snapshot} {p q : Release → Bool} {f : UInt32}

theorem isEmpty_all : s.all.isEmpty = true ↔ ∀ f id, s.copy? f id = none := by
  rw [Catalog.isEmpty_iff]
  constructor
  · intro h f id
    rw [Option.eq_none_iff_forall_ne_some]
    intro r hr
    obtain ⟨l, hl, -, hget⟩ := line_of_copy? hr
    have hnone := h id
    rw [get?_all, List.findSome?_eq_none_iff] at hnone
    rw [hnone l (List.mem_reverse.2 hl)] at hget
    cases hget
  · intro h id
    rw [get?_all, List.findSome?_eq_none_iff]
    intro l hl
    rw [← copy?_of_mem (List.mem_reverse.1 hl), h]

/-- The feature versions of the lines that have a release such as `p` says. -/
def versionsHaving (s : Snapshot) (p : Release → Bool) : List UInt32 :=
  (s.lines.filter fun l => l.releases.releases.any p).map (·.featureVersion)

theorem pairwise_versionsHaving (s : Snapshot) (p : Release → Bool) :
    (s.versionsHaving p).Pairwise (· < ·) :=
  List.pairwise_map.2 (s.pairwise_lines.filter _)

theorem mem_versionsHaving :
    f ∈ s.versionsHaving p ↔ ∃ id r, s.copy? f id = some r ∧ p r = true := by
  simp only [versionsHaving, List.mem_map, List.mem_filter, List.any_eq_true]
  constructor
  · rintro ⟨l, ⟨hl, r, hr, hp⟩, rfl⟩
    exact ⟨r.id, r, (copy?_of_mem hl r.id).trans (Catalog.mem_releases.1 hr), hp⟩
  · rintro ⟨id, r, hr, hp⟩
    obtain ⟨l, hl, rfl, hget⟩ := line_of_copy? hr
    exact ⟨l, ⟨hl, r, Catalog.mem_releases_of_get? hget, hp⟩, rfl⟩

theorem versionsHaving_subset (h : ∀ r, p r = true → q r = true) :
    s.versionsHaving p ⊆ s.versionsHaving q := by
  intro f hf
  obtain ⟨id, r, hr, hp⟩ := mem_versionsHaving.1 hf
  exact mem_versionsHaving.2 ⟨id, r, hr, h r hp⟩

theorem versionsHaving_any_eq_nil :
    (s.versionsHaving fun _ => true) = [] ↔ s.all.isEmpty = true := by
  simp only [List.eq_nil_iff_forall_not_mem, mem_versionsHaving, isEmpty_all,
    Option.eq_none_iff_forall_ne_some, not_exists, not_and, not_true, imp_false]

/-- The last line that is not empty, looked for from behind, is the last of those that have any
release. -/
theorem mostRecentVersion_eq (s : Snapshot) (ltsVersions : List UInt32) :
    (s.availability ltsVersions).mostRecentVersion =
      (s.versionsHaving fun _ => true).getLast? := by
  simp only [availability, versionsHaving, List.getLast?_map, List.getLast?_filter,
    Catalog.any_releases]

/-- The lines with a generally available release are listed by strictly ascending feature versions,
those with long-term support among them in the same order. What is called most recent is the
greatest: of those lines, of those with long-term support, and of all lines that hold anything; it
is missing where there is no such line. Each of the three implies the next, which is not smaller. -/
theorem availability_exact (s : Snapshot) (ltsVersions : List UInt32) :
    let a := s.availability ltsVersions
    a.releases.Pairwise (· < ·) ∧
    (∀ f, f ∈ a.releases ↔ ∃ id r, s.copy? f id = some r ∧ r.kind = .generalAvailability) ∧
    a.ltsReleases.Sublist a.releases ∧
    (∀ f, f ∈ a.ltsReleases ↔ f ∈ a.releases ∧ f ∈ ltsVersions) ∧
    (∀ f, a.mostRecentLts = some f ↔ IsGreatest {g | g ∈ a.ltsReleases} f) ∧
    (a.mostRecentLts = none ↔ a.ltsReleases = []) ∧
    (∀ f, a.mostRecentRelease = some f ↔ IsGreatest {g | g ∈ a.releases} f) ∧
    (a.mostRecentRelease = none ↔ a.releases = []) ∧
    (∀ f, a.mostRecentVersion = some f ↔ IsGreatest {g | ∃ id r, s.copy? g id = some r} f) ∧
    (a.mostRecentVersion = none ↔ s.all.isEmpty = true) ∧
    (∀ f ∈ a.mostRecentLts, ∃ g ∈ a.mostRecentRelease, f ≤ g) ∧
    ∀ f ∈ a.mostRecentRelease, ∃ g ∈ a.mostRecentVersion, f ≤ g := by
  intro a
  have hreleases : a.releases.Pairwise (· < ·) := s.pairwise_versionsHaving (·.isGeneral)
  have hlts : a.ltsReleases.Sublist a.releases := List.filter_sublist
  have hany : ∀ g, g ∈ s.versionsHaving (fun _ => true) ↔ ∃ id r, s.copy? g id = some r := by
    intro g
    simp only [mem_versionsHaving, and_true]
  refine ⟨hreleases, fun f => ?_, hlts, fun f => ?_, fun f => ?_, List.getLast?_eq_none_iff,
    fun f => ?_, List.getLast?_eq_none_iff, fun f => ?_, ?_, fun f hf => ?_, fun f hf => ?_⟩
  · exact mem_versionsHaving.trans (by simp only [Release.isGeneral, beq_iff_eq])
  · simp only [a, availability, List.mem_filter, List.contains_iff_mem]
  · exact getLast?_eq_some_iff_isGreatest (hreleases.sublist hlts)
  · exact getLast?_eq_some_iff_isGreatest hreleases
  · rw [mostRecentVersion_eq, getLast?_eq_some_iff_isGreatest (s.pairwise_versionsHaving _)]
    simp only [hany]
  · rw [mostRecentVersion_eq, List.getLast?_eq_none_iff, versionsHaving_any_eq_nil]
  · exact exists_getLast?_of_subset hreleases hlts.subset hf
  · rw [mostRecentVersion_eq]
    exact exists_getLast?_of_subset (s.pairwise_versionsHaving _)
      (versionsHaving_subset fun _ _ => rfl) hf

/-- Has a line that was emptied, and one of early access only. -/
def thinned : Snapshot :=
  after [
    .ofLines [
      ⟨8, .ofReleases [.single "general" 8]⟩, ⟨11, .ofReleases [.single "removed" 11]⟩,
      ⟨17, .ofReleases [{ Release.single "early" 17 with kind := .earlyAccess }]⟩],
    .removeRelease 11 "removed"]

theorem availability_exact_thinned :
    thinned.featureVersions = [8, 11, 17] ∧
    thinned.availability [21, 17, 8, 8] = ⟨[8], [8], some 8, some 8, some 17⟩ ∧
    IsGreatest {g | ∃ id r, thinned.copy? g id = some r} 17 ∧
    (∃ g ∈ (thinned.availability [21, 17, 8, 8]).mostRecentRelease, 8 ≤ g) ∧
    ∃ g ∈ (thinned.availability [21, 17, 8, 8]).mostRecentVersion, 8 ≤ g := by
  have hvalue : thinned.availability [21, 17, 8, 8] = ⟨[8], [8], some 8, some 8, some 17⟩ := by
    decide +kernel
  obtain ⟨-, -, -, -, -, -, -, -, hversion, -, hlts, hrelease⟩ :=
    availability_exact thinned [21, 17, 8, 8]
  exact ⟨by decide +kernel, hvalue, (hversion 17).1 (by rw [hvalue]), hlts 8 (by rw [hvalue]; rfl),
    hrelease 8 (by rw [hvalue]; rfl)⟩

end Snapshot

end ReleaseCatalog

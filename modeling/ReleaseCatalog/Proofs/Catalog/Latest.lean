import ReleaseCatalog.Proofs.Catalog.Restriction

namespace ReleaseCatalog

theorem getElem?_foldl_insertIfNew {κ α : Type} [Ord κ] [Std.TransOrd κ] [Std.LawfulEqOrd κ]
    [DecidableEq κ] (key : α → κ) (as : List α) (m : Std.ExtTreeMap κ α) (k : κ) :
    (as.foldl (fun m a => m.insertIfNew (key a) a) m)[k]? =
      m[k]?.or (as.find? (key · == k)) := by
  induction as generalizing m with
  | nil => simp
  | cons a as ih =>
    rw [List.foldl_cons, ih, Std.ExtTreeMap.getElem?_insertIfNew]
    simp only [Std.LawfulEqCmp.compare_eq_iff_eq]
    by_cases hk : key a = k
    · subst hk
      rw [List.find?_cons_of_pos (by simp)]
      by_cases hm : key a ∈ m
      · rw [Std.ExtTreeMap.getElem?_eq_some_getElem hm, if_neg fun h => h.2 hm]
        rfl
      · rw [Std.ExtTreeMap.getElem?_eq_none hm, if_pos ⟨rfl, hm⟩]
        rfl
    · rw [List.find?_cons_of_neg (by simpa using hk), if_neg fun h => hk h.1]

namespace Vocabulary

theorem position_inj {α : Type} [Vocabulary α] [DecidableEq α] (hall : ∀ a : α, a ∈ all)
    {a b : α} (h : compareOn position a b = .eq) : a = b :=
  (List.idxOf_inj (hall a)).1 (Std.LawfulEqCmp.eq_of_compare h)

end Vocabulary

namespace Platform

theorem eq_of_order {p q : Platform} (h : order p q = .eq) : p = q := by
  obtain ⟨os, architecture, imageType, jvmVariant, heapSize⟩ := p
  obtain ⟨os', architecture', imageType', jvmVariant', heapSize'⟩ := q
  simp only [order, compareLex_eq_eq] at h
  obtain ⟨hos, harchitecture, himageType, hjvmVariant, hheapSize⟩ := h
  rw [mk.injEq]
  exact ⟨Vocabulary.position_inj (fun a => by cases a <;> decide) hos,
    Vocabulary.position_inj (fun a => by cases a <;> decide) harchitecture,
    Vocabulary.position_inj (fun a => by cases a <;> decide) himageType,
    Vocabulary.position_inj (fun a => by cases a <;> decide) hjvmVariant,
    Vocabulary.position_inj (fun a => by cases a <;> decide) hheapSize⟩

instance : Std.LawfulEqOrd Platform where
  eq_of_compare h := eq_of_order h

end Platform

/-- A binary is for a platform if all that tells platforms apart agrees. -/
structure Binary.IsFor (x : Binary) (p : Platform) : Prop where
  os : x.os = p.os
  architecture : x.architecture = p.architecture
  imageType : x.imageType = p.imageType
  jvmVariant : x.jvmVariant = p.jvmVariant
  heapSize : x.heapSize = p.heapSize

theorem Binary.platform_eq_iff {x : Binary} {p : Platform} : x.platform = p ↔ x.IsFor p := by
  obtain ⟨os, architecture, imageType, jvmVariant, heapSize⟩ := p
  rw [platform, Platform.mk.injEq]
  constructor
  · rintro ⟨hos, harchitecture, himageType, hjvmVariant, hheapSize⟩
    exact ⟨hos, harchitecture, himageType, hjvmVariant, hheapSize⟩
  · rintro ⟨hos, harchitecture, himageType, hjvmVariant, hheapSize⟩
    exact ⟨hos, harchitecture, himageType, hjvmVariant, hheapSize⟩

/-- The places that the terms of a binary's platform have in their vocabularies. -/
def Binary.places (x : Binary) : List Nat :=
  [Vocabulary.position x.os, Vocabulary.position x.architecture, Vocabulary.position x.imageType,
    Vocabulary.position x.jvmVariant, Vocabulary.position x.heapSize]

theorem Binary.compare_platform (x y : Binary) :
    compare x.platform y.platform = compare x.places y.places := by
  change Platform.order _ _ = _
  simp [Platform.order, compareLex, compareOn, platform, places]

/-- A release offers a binary for a platform if it is generally available and has one that meets
the criteria. -/
def Release.Offers (b : BinaryCriteria) (p : Platform) (r : Release) : Prop :=
  r.kind = .generalAvailability ∧ ∃ x ∈ r.binaries, b.Admits x ∧ x.IsFor p

/-- An entry is the first of a release for a platform if it names the release and has the first of
its binaries for the platform that meet the criteria. -/
structure LatestBinary.IsFirstOf (x : LatestBinary) (b : BinaryCriteria) (p : Platform)
    (r : Release) : Prop where
  releaseId : x.releaseId = r.id
  releaseName : x.releaseName = r.name
  version : x.version = r.version
  admits : b.Admits x.binary
  isFor : x.binary.IsFor p
  first : ∃ before after, r.binaries = before ++ x.binary :: after ∧
    ∀ y ∈ before, b.Admits y → ¬ y.IsFor p

namespace Snapshot

variable {s : Snapshot} {f : UInt32} {b : BinaryCriteria} {p : Platform} {r : Release}
  {x : LatestBinary}

/-- The release is the greatest by version of those in a line that offer a binary for the
platform. -/
structure IsLeading (s : Snapshot) (f : UInt32) (b : BinaryCriteria) (p : Platform)
    (r : Release) : Prop where
  filed : s.copy? f r.id = some r
  offers : r.Offers b p
  greatest : ∀ t, s.copy? f t.id = some t → t.Offers b p →
    t = r ∨ Release.compareByVersion t r = .lt

theorem mem_ordered {direction : Direction} {method : SortMethod} :
    r ∈ s.ordered f direction method ↔ s.copy? f r.id = some r := by
  rw [ordered_eq, Catalog.mem_ordered, get?_getD_catalog?]

/-- The binaries that a line offers, from the greatest version down. -/
def offered (s : Snapshot) (f : UInt32) (b : BinaryCriteria) : List LatestBinary :=
  ((s.ordered f .descending .byVersion).filter (·.isGeneral)).flatMap (offers b)

/-- The latest binaries under their platforms. -/
def latestBy (s : Snapshot) (f : UInt32) (b : BinaryCriteria) :
    Std.ExtTreeMap Platform LatestBinary :=
  (s.offered f b).foldl (fun m x => m.insertIfNew x.binary.platform x) ∅

theorem latest_eq (s : Snapshot) (f : UInt32) (b : BinaryCriteria) :
    s.latest f b = (s.latestBy f b).toList.map (·.2) := rfl

theorem getElem?_latestBy (s : Snapshot) (f : UInt32) (b : BinaryCriteria) (p : Platform) :
    (s.latestBy f b)[p]? = (s.offered f b).find? (·.binary.platform == p) := by
  have h := getElem?_foldl_insertIfNew (·.binary.platform) (s.offered f b) ∅ p
  rwa [Std.ExtTreeMap.getElem?_empty, Option.none_or] at h

theorem platform_of_getElem?_latestBy (h : (s.latestBy f b)[p]? = some x) :
    x.binary.platform = p := by
  rw [getElem?_latestBy] at h
  simpa using List.find?_some h

theorem mem_latest :
    x ∈ s.latest f b ↔
      (s.offered f b).find? (·.binary.platform == x.binary.platform) = some x := by
  rw [latest_eq, ← getElem?_latestBy]
  simp only [List.mem_map, Prod.exists, exists_eq_right,
    Std.ExtTreeMap.mem_toList_iff_getElem?_eq_some]
  constructor
  · rintro ⟨p, h⟩
    rw [platform_of_getElem?_latestBy h]
    exact h
  · exact fun h => ⟨_, h⟩

theorem map_platform_latest (s : Snapshot) (f : UInt32) (b : BinaryCriteria) :
    (s.latest f b).map (·.binary.platform) = (s.latestBy f b).keys := by
  rw [latest_eq, List.map_map, ← Std.ExtTreeMap.map_fst_toList_eq_keys]
  apply List.map_congr_left
  intro y hy
  exact platform_of_getElem?_latestBy (Std.ExtTreeMap.mem_toList_iff_getElem?_eq_some.1 hy)

theorem find?_offers (b : BinaryCriteria) (p : Platform) (r : Release) :
    (offers b r).find? (·.binary.platform == p) =
      (r.binaries.find? fun y => b.accepts y && y.platform == p).map
        (⟨r.id, r.name, r.version, ·⟩) := by
  rw [offers, List.find?_map, List.find?_filter]
  congr 2
  funext y
  rw [Bool.decide_and, Bool.decide_eq_true, Bool.decide_eq_true]
  rfl

theorem find?_offers_eq_some :
    (offers b r).find? (·.binary.platform == p) = some x ↔ x.IsFirstOf b p r := by
  rw [find?_offers, Option.map_eq_some_iff]
  simp only [List.find?_eq_some_iff_append, Bool.not_eq_true', Bool.and_eq_false_imp,
    Bool.and_eq_true, beq_iff_eq, beq_eq_false_iff_ne, BinaryCriteria.accepts_iff, ne_eq,
    Binary.platform_eq_iff]
  constructor
  · rintro ⟨y, ⟨⟨hadmits, hfor⟩, before, after, hr, hbefore⟩, rfl⟩
    exact ⟨rfl, rfl, rfl, hadmits, hfor, before, after, hr, hbefore⟩
  · obtain ⟨releaseId, releaseName, version, binary⟩ := x
    rintro ⟨rfl, rfl, rfl, hadmits, hfor, before, after, hr, hbefore⟩
    exact ⟨binary, ⟨⟨hadmits, hfor⟩, before, after, hr, hbefore⟩, rfl⟩

theorem offers_iff :
    r.Offers b p ↔
      r.isGeneral = true ∧ ((offers b r).find? (·.binary.platform == p)).isSome = true := by
  rw [find?_offers, Option.isSome_map, List.find?_isSome]
  simp only [Release.Offers, Release.isGeneral, Bool.and_eq_true, beq_iff_eq,
    BinaryCriteria.accepts_iff, Binary.platform_eq_iff]

/-- What is offered first for a platform comes from the leading release. -/
theorem find?_offered :
    (s.offered f b).find? (·.binary.platform == p) = some x ↔
      ∃ r, s.IsLeading f b p r ∧ x.IsFirstOf b p r := by
  have hsorted : ((s.ordered f .descending .byVersion).filter (·.isGeneral)).Pairwise
      fun r t => Release.compareByVersion t r = .lt := by
    rw [ordered_eq, Catalog.ordered_descending]
    exact (List.pairwise_reverse.2 (Catalog.pairwise_ordered _ .byVersion)).filter _
  have hasymm (r t : Release) (hlt : Release.compareByVersion t r = .lt) :
      ¬ Release.compareByVersion r t = .lt := by
    have hswap : Release.compareByVersion r t = (Release.compareByVersion t r).swap :=
      Std.OrientedCmp.eq_swap
    rw [hswap, hlt]
    decide
  rw [offered, List.find?_flatMap, findSome?_eq_some_iff_of_pairwise hasymm hsorted]
  constructor
  · rintro ⟨r, hr, hx, hgreatest⟩
    obtain ⟨hfiled, hgeneral⟩ := List.mem_filter.1 hr
    have hoffers : r.Offers b p := offers_iff.2 ⟨hgeneral, by rw [hx]; rfl⟩
    refine ⟨r, ⟨mem_ordered.1 hfiled, hoffers, fun t ht htoffers => ?_⟩,
      find?_offers_eq_some.1 hx⟩
    obtain ⟨htgeneral, htsome⟩ := offers_iff.1 htoffers
    exact hgreatest t (List.mem_filter.2 ⟨mem_ordered.2 ht, htgeneral⟩) htsome
  · rintro ⟨r, hr, hx⟩
    refine ⟨r, List.mem_filter.2 ⟨mem_ordered.2 hr.filed, (offers_iff.1 hr.offers).1⟩,
      find?_offers_eq_some.2 hx, fun t ht htsome => ?_⟩
    obtain ⟨hfiled, hgeneral⟩ := List.mem_filter.1 ht
    exact hr.greatest t (mem_ordered.1 hfiled) (offers_iff.2 ⟨hgeneral, htsome⟩)

theorem exists_find?_offered :
    (∃ x, (s.offered f b).find? (·.binary.platform == p) = some x) ↔
      ∃ r, s.copy? f r.id = some r ∧ r.Offers b p := by
  rw [← Option.isSome_iff_exists, offered, List.find?_flatMap, List.findSome?_isSome_iff]
  simp only [List.mem_filter, mem_ordered, offers_iff, and_assoc]

theorem mem_latest_and_isFor :
    x ∈ s.latest f b ∧ x.binary.IsFor p ↔
      (s.offered f b).find? (·.binary.platform == p) = some x := by
  rw [mem_latest, ← Binary.platform_eq_iff]
  constructor
  · rintro ⟨hx, rfl⟩
    exact hx
  · intro hx
    obtain rfl : x.binary.platform = p := by simpa using List.find?_some hx
    exact ⟨hx, rfl⟩

/-- The latest binaries of a line are one for each platform that a generally available release has
a matching binary for, by strictly ascending platforms. Each comes from the release that is the
greatest by version of those, and is the first matching binary for its platform there. -/
theorem latest_exact (s : Snapshot) (f : UInt32) (b : BinaryCriteria) :
    (∀ p, (∃! x, x ∈ s.latest f b ∧ x.binary.IsFor p) ↔
      ∃ r, s.copy? f r.id = some r ∧ r.Offers b p) ∧
    (s.latest f b).Pairwise (fun x y => compare x.binary.places y.binary.places = .lt) ∧
    ∀ x, x ∈ s.latest f b ↔ ∃ p r, s.IsLeading f b p r ∧ x.IsFirstOf b p r := by
  refine ⟨fun p => ?_, ?_, fun x => ?_⟩
  · simp only [mem_latest_and_isFor]
    rw [← exists_find?_offered]
    refine ⟨ExistsUnique.exists, fun ⟨x, hx⟩ => ⟨x, hx, fun y hy => ?_⟩⟩
    exact Option.some.inj (hy.symm.trans hx)
  · have hkeys : ((s.latest f b).map (·.binary.platform)).Pairwise
        (fun p q => compare p q = .lt) := by
      rw [map_platform_latest]
      exact Std.ExtTreeMap.ordered_keys
    exact (List.pairwise_map.1 hkeys).imp fun h => (Binary.compare_platform _ _).symm.trans h
  · simp only [← find?_offered, ← mem_latest_and_isFor]
    constructor
    · exact fun hx => ⟨x.binary.platform, hx, Binary.platform_eq_iff.1 rfl⟩
    · rintro ⟨p, hx, -⟩
      exact hx

/-- Two releases of one version, of which the second has binaries for both heap sizes, and an early
access release. -/
def heaps : Snapshot :=
  let normal := (Release.single "" 11).binaries
  let large := normal.map ({ · with heapSize := .large })
  let later := { Release.single "b" 11 with binaries := large ++ normal ++ large }
  .ofLines [⟨11, .ofReleases [.single "a" 11, later,
    { Release.single "c" 11 with kind := .earlyAccess }]⟩]

theorem latest_exact_heaps :
    (heaps.latest 11 {}).map (fun x => (x.releaseId, x.binary.heapSize)) =
      [("b", .normal), ("b", .large)] ∧
    (∃ r, heaps.IsLeading 11 {} ⟨.linux, .x64, .jdk, .hotspot, .large⟩ r ∧ r.id = "b") ∧
    ¬ ∃ r, heaps.copy? 11 r.id = some r ∧ r.Offers {} ⟨.windows, .x64, .jdk, .hotspot, .large⟩ := by
  obtain ⟨hplatforms, -, hentries⟩ := latest_exact heaps 11 {}
  refine ⟨by decide +kernel, ?_, ?_⟩
  · have hlarge : ∃ x ∈ heaps.latest 11 {}, x.releaseId = "b" ∧
        x.binary.platform = ⟨.linux, .x64, .jdk, .hotspot, .large⟩ := by
      decide +kernel
    obtain ⟨x, hx, hid, hplatform⟩ := hlarge
    obtain ⟨p, r, hr, hfirst⟩ := (hentries x).1 hx
    obtain rfl := hplatform.symm.trans (Binary.platform_eq_iff.2 hfirst.isFor)
    exact ⟨r, hr, hfirst.releaseId.symm.trans hid⟩
  · rw [← hplatforms]
    rintro ⟨x, ⟨hx, hfor⟩, -⟩
    have hos : ∀ y ∈ heaps.latest 11 {}, y.binary.os = .linux := by decide +kernel
    exact absurd (hos x hx ▸ hfor.os) (by decide)

end Snapshot

end ReleaseCatalog

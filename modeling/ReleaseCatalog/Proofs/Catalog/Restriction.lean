import ReleaseCatalog.Proofs.Catalog.Difference
import ReleaseCatalog.Proofs.Catalog.Query
import ReleaseCatalog.Proofs.Catalog.Union

namespace ReleaseCatalog

/-- A release with one binary. -/
def Release.single (id : String) (major : UInt32) : Release :=
  { plain id major (.atSecond 0) with
    binaries := [
      { os := .linux, architecture := .x64, imageType := .jdk, jvmVariant := .hotspot
        heapSize := .normal, project := .jdk, updatedAt := .atSecond 0, downloadCount := 0
        package := ⟨"", "", 0, none, none⟩ }] }

theorem Catalog.ordered_eq_filter {c d : Catalog} {keep : Release → Bool}
    (h : ∀ r : Release, c.get? r.id = some r ↔ d.get? r.id = some r ∧ keep r = true)
    (direction : Direction) (method : SortMethod) :
    c.ordered direction method = (d.ordered direction method).filter keep := by
  have hascending : c.ordered .ascending method = (d.ordered .ascending method).filter keep := by
    apply ordered_eq_of_mem_iff ((d.pairwise_ordered method).filter keep)
    intro r
    rw [List.mem_filter, mem_ordered, h]
  cases direction with
  | ascending => exact hascending
  | descending => rw [ordered_descending, ordered_descending, hascending, List.filter_reverse]

namespace ReleaseCriteria

/-- The criteria with the feature version `f`, or with none. -/
def inLine (q : ReleaseCriteria) (f : Option UInt32) : ReleaseCriteria :=
  { q with featureVersion := f }

theorem accepts_inLine (q : ReleaseCriteria) (f : UInt32) (r : Release) :
    (q.inLine (some f)).accepts r = ((r.featureVersion == f) && (q.inLine none).accepts r) := by
  simp only [accepts, inLine, Option.all_some, Option.all_none, Bool.and_true]
  ac_rfl

end ReleaseCriteria

namespace Snapshot

variable {s : Snapshot} {f g : UInt32} {id : String} {r : Release}

/-- No id is in two lines. -/
def IsDisjoint (s : Snapshot) : Prop :=
  ∀ k ∈ s.lines, ∀ l ∈ s.lines, ∀ id ∈ k.releases.ids, l.releases.contains id = true → k = l

instance (s : Snapshot) : Decidable s.IsDisjoint :=
  inferInstanceAs (Decidable (∀ k ∈ s.lines, ∀ l ∈ s.lines, ∀ id ∈ k.releases.ids,
    l.releases.contains id = true → k = l))

instance (s : Snapshot) : Decidable s.IsConsistent :=
  inferInstanceAs (Decidable (∀ l ∈ s.lines, l.mismatch? = none))

theorem IsDisjoint.eq_of_copy? (h : s.IsDisjoint) {t : Release} (hr : s.copy? f id = some r)
    (ht : s.copy? g id = some t) : f = g := by
  obtain ⟨k, hk, rfl, hkget⟩ := line_of_copy? hr
  obtain ⟨l, hl, rfl, hlget⟩ := line_of_copy? ht
  have hid : id ∈ k.releases.ids := by
    rw [Catalog.mem_ids, Catalog.contains_eq_isSome, hkget]
    rfl
  have hid' : l.releases.contains id = true := by
    rw [Catalog.contains_eq_isSome, hlget]
    rfl
  rw [h k hk l hl id hid hid']

/-- A line has those of all releases that are of its feature version. -/
theorem IsDisjoint.copy?_eq_some_iff (hd : s.IsDisjoint) (hs : s.IsConsistent) :
    s.copy? f id = some r ↔ s.all.get? id = some r ∧ r.featureVersion = f := by
  rw [get?_all_eq_some]
  constructor
  · intro hr
    refine ⟨⟨f, hr, fun g hg => ?_⟩, hs.featureVersion_of_copy? hr⟩
    cases hc : s.copy? g id with
    | none => rfl
    | some t => exact absurd (hd.eq_of_copy? hr hc) (UInt32.ne_of_lt hg)
  · rintro ⟨⟨g, hg, -⟩, rfl⟩
    rw [hs.featureVersion_of_copy? hg]
    exact hg

theorem get?_getD_catalog? (s : Snapshot) (f : UInt32) (id : String) :
    ((s.catalog? f).getD .empty).get? id = s.copy? f id := by
  rw [copy?]
  cases s.catalog? f with
  | none => exact Catalog.get?_empty id
  | some c => rfl

theorem IsDisjoint.ordered_eq_filter (hd : s.IsDisjoint) (hs : s.IsConsistent) (f : UInt32)
    (direction : Direction) (method : SortMethod) :
    s.ordered f direction method =
      (s.all.ordered direction method).filter (·.featureVersion == f) := by
  rw [ordered_eq]
  apply Catalog.ordered_eq_filter
  intro r
  rw [get?_getD_catalog?, hd.copy?_eq_some_iff hs, beq_iff_eq]

theorem candidates_inLine_some (s : Snapshot) (q : ReleaseCriteria) (f : UInt32)
    (direction : Direction) (method : SortMethod) :
    s.candidates (q.inLine (some f)) direction method = s.ordered f direction method := rfl

theorem candidates_inLine_none (s : Snapshot) (q : ReleaseCriteria) (direction : Direction)
    (method : SortMethod) :
    s.candidates (q.inLine none) direction method = s.all.ordered direction method := rfl

theorem IsDisjoint.query_eq_filter (hd : s.IsDisjoint) (hs : s.IsConsistent) (f : UInt32)
    (q : ReleaseCriteria) (b : BinaryCriteria) (direction : Direction) (method : SortMethod) :
    s.query (q.inLine (some f)) b direction method =
      (s.query (q.inLine none) b direction method).filter (·.featureVersion == f) := by
  have hversion {r n : Release} (hn : r.narrow? b.accepts = some n) :
      (n.featureVersion == f) = (r.featureVersion == f) := by
    rw [Release.featureVersion_of_narrow? hn]
  rw [query_eq, query_eq, candidates_inLine_some, candidates_inLine_none, hd.ordered_eq_filter hs,
    ← Release.filterMap_narrow?_filter hversion, List.filter_filter, List.filter_filter]
  congr 2
  funext r
  rw [q.accepts_inLine, Bool.and_right_comm, Bool.and_self]

/-- A query restricted to one line finds what the same query finds among all releases of that
feature version, in the same order. What the other lines hold makes no difference. -/
theorem query_restricted (hd : s.IsDisjoint) (hs : s.IsConsistent) (f : UInt32)
    (q : ReleaseCriteria) (b : BinaryCriteria) (direction : Direction) (method : SortMethod) :
    s.query (q.inLine (some f)) b direction method =
      (s.query (q.inLine none) b direction method).filter (·.featureVersion == f) ∧
    ∀ t : Snapshot, t.line? f = s.line? f →
      t.query (q.inLine (some f)) b direction method =
        s.query (q.inLine (some f)) b direction method ∧
      (t.IsDisjoint → t.IsConsistent →
        (t.query (q.inLine none) b direction method).filter (·.featureVersion == f) =
          (s.query (q.inLine none) b direction method).filter (·.featureVersion == f)) := by
  have hquery := hd.query_eq_filter hs f q b direction method
  refine ⟨hquery, fun t ht => ?_⟩
  have hsame : t.query (q.inLine (some f)) b direction method =
      s.query (q.inLine (some f)) b direction method := by
    rw [query, query, candidates_inLine_some, candidates_inLine_some, ordered, ordered, catalog?,
      catalog?, ht]
  refine ⟨hsame, fun htd hts => ?_⟩
  rw [← htd.query_eq_filter hts, ← hquery, hsame]

/-- Two lines, the later one with two releases. -/
def twoLines : Snapshot :=
  .ofLines [⟨8, .ofReleases [.single "b" 8]⟩, ⟨11, .ofReleases [.single "a" 11, .single "c" 11]⟩]

theorem query_restricted_twoLines :
    twoLines.IsDisjoint ∧ twoLines.IsConsistent ∧
    (twoLines.query (ReleaseCriteria.inLine {} none) {} .descending .byVersion).map (·.id) =
      ["c", "a", "b"] ∧
    (twoLines.query (ReleaseCriteria.inLine {} (some 11)) {} .descending .byVersion) =
      (twoLines.query (ReleaseCriteria.inLine {} none) {} .descending .byVersion).filter
        (·.featureVersion == 11) ∧
    (twoLines.removeRelease 8 "b").query (ReleaseCriteria.inLine {} (some 11)) {} .descending
        .byVersion =
      twoLines.query (ReleaseCriteria.inLine {} (some 11)) {} .descending .byVersion := by
  have hd : twoLines.IsDisjoint := by decide +kernel
  have hs : twoLines.IsConsistent := by decide +kernel
  have hline : (twoLines.removeRelease 8 "b").line? 11 = twoLines.line? 11 := by
    rw [line?_removeRelease, if_neg (by decide)]
  obtain ⟨hquery, hother⟩ := query_restricted hd hs 11 {} {} .descending .byVersion
  exact ⟨hd, hs, by decide +kernel, hquery, (hother _ hline).1⟩

end Snapshot

end ReleaseCatalog

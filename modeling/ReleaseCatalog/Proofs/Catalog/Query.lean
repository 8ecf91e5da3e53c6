import Mathlib.Data.List.Sort
import ReleaseCatalog.Proofs.Catalog.Listing
import ReleaseCatalog.Catalog.Query

namespace ReleaseCatalog

namespace Release

variable {keep : Binary → Bool} {r n : Release}

theorem narrow?_eq_some :
    r.narrow? keep = some n ↔ (∃ x ∈ r.binaries, keep x = true) ∧ n = r.withBinaries keep := by
  rw [← List.any_eq_true, narrow?_eq]
  split
  · next h => simp only [h, true_and, Option.some.injEq, eq_comm]
  · next h => simp [h]

theorem id_of_narrow? (h : r.narrow? keep = some n) : n.id = r.id := by
  obtain ⟨-, rfl⟩ := narrow?_eq_some.1 h
  rfl

theorem featureVersion_of_narrow? (h : r.narrow? keep = some n) :
    n.featureVersion = r.featureVersion := by
  obtain ⟨-, rfl⟩ := narrow?_eq_some.1 h
  rfl

/-- A query narrows releases just as a catalog does, though it asks in another order. -/
theorem shown?_eq_narrow? (keep : Binary → Bool) (r : Release) :
    r.shown? keep = r.narrow? keep := by
  cases hempty : r.binaries.isEmpty with
  | true => simp [shown?, narrow?, List.isEmpty_iff.1 hempty]
  | false => simp only [shown?, narrow?, hempty, Bool.false_eq_true, if_false]

theorem filterMap_narrow?_filter {p : Release → Bool}
    (hp : ∀ {r n : Release}, r.narrow? keep = some n → p n = p r) (rs : List Release) :
    (rs.filter p).filterMap (·.narrow? keep) = (rs.filterMap (·.narrow? keep)).filter p := by
  rw [List.filterMap_filter, List.filter_filterMap]
  congr 1
  funext r
  cases hn : r.narrow? keep with
  | none => simp
  | some n => simp [Option.filter, hp hn]

end Release

/-- What criteria ask of a release: whatever of them is given is met. -/
structure ReleaseCriteria.Admits (q : ReleaseCriteria) (r : Release) : Prop where
  kind : ∀ kind, q.kind = some kind → r.kind = kind
  featureVersion : ∀ f, q.featureVersion = some f → r.version.major = f
  name : ∀ name, q.name = some name → r.name = name
  vendor : ∀ vendor, q.vendor = some vendor → r.vendor = vendor
  lts : ∀ lts, q.lts = some lts → (r.version.major ∈ q.ltsVersions ↔ lts = true)
  range : ∀ range, q.range = some range → range.contains r.version = true

theorem ReleaseCriteria.accepts_iff {q : ReleaseCriteria} {r : Release} :
    q.accepts r = true ↔ q.Admits r := by
  simp only [accepts, Release.featureVersion, Bool.and_eq_true, Option.all_eq_true, beq_iff_eq]
  constructor
  · rintro ⟨⟨⟨⟨⟨hkind, hversion⟩, hname⟩, hvendor⟩, hlts⟩, hrange⟩
    refine ⟨hkind, hversion, hname, hvendor, fun lts h => ?_, hrange⟩
    rw [← hlts lts h, List.contains_iff_mem]
  · rintro ⟨hkind, hversion, hname, hvendor, hlts, hrange⟩
    refine ⟨⟨⟨⟨⟨hkind, hversion⟩, hname⟩, hvendor⟩, fun lts h => ?_⟩, hrange⟩
    rw [Bool.eq_iff_iff, List.contains_iff_mem]
    exact hlts lts h

/-- What criteria ask of a binary: whatever of them is given is met, and the project is the one
asked for, or that of the kit itself. -/
structure BinaryCriteria.Admits (q : BinaryCriteria) (x : Binary) : Prop where
  os : ∀ os, q.os = some os → x.os = os
  architecture : ∀ architecture, q.architecture = some architecture → x.architecture = architecture
  imageType : ∀ imageType, q.imageType = some imageType → x.imageType = imageType
  jvmVariant : ∀ jvmVariant, q.jvmVariant = some jvmVariant → x.jvmVariant = jvmVariant
  heapSize : ∀ heapSize, q.heapSize = some heapSize → x.heapSize = heapSize
  project : x.project = q.project.getD .jdk
  updatedBefore : ∀ t, q.updatedBefore = some t → compare x.updatedAt t = .lt

theorem BinaryCriteria.accepts_iff {q : BinaryCriteria} {x : Binary} :
    q.accepts x = true ↔ q.Admits x := by
  simp only [accepts, Project.primary, Instant.isBefore, Bool.and_eq_true, Option.all_eq_true,
    beq_iff_eq]
  constructor
  · rintro ⟨⟨⟨⟨⟨⟨hos, harchitecture⟩, himageType⟩, hjvmVariant⟩, hheapSize⟩, hproject⟩, hbefore⟩
    exact ⟨hos, harchitecture, himageType, hjvmVariant, hheapSize, hproject, hbefore⟩
  · rintro ⟨hos, harchitecture, himageType, hjvmVariant, hheapSize, hproject, hbefore⟩
    exact ⟨⟨⟨⟨⟨⟨hos, harchitecture⟩, himageType⟩, hjvmVariant⟩, hheapSize⟩, hproject⟩, hbefore⟩

theorem SortMethod.compare_narrow? (method : SortMethod) {keep : Binary → Bool}
    {r s m n : Release} (hm : r.narrow? keep = some m) (hn : s.narrow? keep = some n) :
    method.compare m n = method.compare r s := by
  obtain ⟨-, rfl⟩ := Release.narrow?_eq_some.1 hm
  obtain ⟨-, rfl⟩ := Release.narrow?_eq_some.1 hn
  cases method <;> rfl

theorem ReleaseCriteria.accepts_narrow? (q : ReleaseCriteria) {keep : Binary → Bool}
    {r n : Release} (h : r.narrow? keep = some n) : q.accepts n = q.accepts r := by
  obtain ⟨-, rfl⟩ := Release.narrow?_eq_some.1 h
  rfl

instance (method : SortMethod) : Std.Antisymm fun r s : Release => method.compare r s = .lt where
  antisymm r s hrs hsr := by
    have hswap : method.compare s r = (method.compare r s).swap := Std.OrientedCmp.eq_swap
    rw [hrs, hsr] at hswap
    cases hswap

instance (method : SortMethod) : Std.Irrefl fun r s : Release => method.compare r s = .lt where
  irrefl r h := by
    have hself : method.compare r r = .eq := Std.ReflCmp.compare_self
    rw [hself] at h
    cases h

namespace Catalog

variable {c : Catalog} {keep : Binary → Bool}

theorem get?_narrow_eq_some {id : String} {n : Release} :
    (c.narrow keep).get? id = some n ↔ ∃ r, c.get? id = some r ∧ r.narrow? keep = some n := by
  rw [get?_narrow, Option.bind_eq_some_iff]

theorem ordered_eq_of_mem_iff {method : SortMethod} {rs : List Release}
    (hsorted : rs.Pairwise fun r s => method.compare r s = .lt)
    (hmem : ∀ r, r ∈ rs ↔ c.get? r.id = some r) : c.ordered .ascending method = rs := by
  apply List.Pairwise.eq_of_mem_iff (c.pairwise_ordered method) hsorted
  intro r
  rw [mem_ordered, hmem]

theorem ordered_narrow (c : Catalog) (keep : Binary → Bool) (direction : Direction)
    (method : SortMethod) :
    (c.narrow keep).ordered direction method =
      (c.ordered direction method).filterMap (·.narrow? keep) := by
  have hascending : (c.narrow keep).ordered .ascending method =
      (c.ordered .ascending method).filterMap (·.narrow? keep) := by
    have hsorted : ((c.ordered .ascending method).filterMap (·.narrow? keep)).Pairwise
        fun r s => method.compare r s = .lt := by
      refine (c.pairwise_ordered method).filterMap _ fun r s hlt m hm n hn => ?_
      rw [method.compare_narrow? hm hn]
      exact hlt
    apply ordered_eq_of_mem_iff hsorted
    intro n
    rw [get?_narrow_eq_some, List.mem_filterMap]
    constructor
    · rintro ⟨r, hr, hn⟩
      rw [mem_ordered, ← Release.id_of_narrow? hn] at hr
      exact ⟨r, hr, hn⟩
    · rintro ⟨r, hr, hn⟩
      rw [Release.id_of_narrow? hn] at hr
      exact ⟨r, mem_ordered.2 hr, hn⟩
  cases direction with
  | ascending => exact hascending
  | descending =>
    rw [ordered_descending, ordered_descending, hascending, List.filterMap_reverse]

end Catalog

namespace Snapshot

variable {s : Snapshot} {q : ReleaseCriteria} {b : BinaryCriteria}

/-- The catalog that a query looks through: that of the line which it names, which is empty where
there is no such line, or else that of all releases. -/
def scope (s : Snapshot) (q : ReleaseCriteria) : Catalog :=
  match q.featureVersion with
  | some f => (s.catalog? f).getD .empty
  | none => s.all

theorem ordered_empty (direction : Direction) (method : SortMethod) :
    Catalog.empty.ordered direction method = [] := by
  rw [List.eq_nil_iff_forall_not_mem]
  intro r hr
  rw [Catalog.mem_ordered, Catalog.get?_empty] at hr
  cases hr

theorem ordered_eq (s : Snapshot) (f : UInt32) (direction : Direction) (method : SortMethod) :
    s.ordered f direction method = ((s.catalog? f).getD .empty).ordered direction method := by
  rw [ordered]
  cases s.catalog? f with
  | none => exact (ordered_empty direction method).symm
  | some c => rfl

theorem candidates_eq (s : Snapshot) (q : ReleaseCriteria) (direction : Direction)
    (method : SortMethod) :
    s.candidates q direction method = (s.scope q).ordered direction method := by
  rw [candidates, scope]
  cases q.featureVersion with
  | none => rfl
  | some f => exact s.ordered_eq f direction method

theorem query_eq (s : Snapshot) (q : ReleaseCriteria) (b : BinaryCriteria) (direction : Direction)
    (method : SortMethod) :
    s.query q b direction method =
      ((s.candidates q direction method).filter q.accepts).filterMap (·.narrow? b.accepts) := by
  simp only [query, Release.shown?_eq_narrow?]

/-- A query selects from the listing of the narrowed catalog. -/
theorem query_eq_filter (s : Snapshot) (q : ReleaseCriteria) (b : BinaryCriteria)
    (direction : Direction) (method : SortMethod) :
    s.query q b direction method =
      (((s.scope q).narrow b.accepts).ordered direction method).filter q.accepts := by
  rw [query_eq, candidates_eq, Catalog.ordered_narrow]
  exact Release.filterMap_narrow?_filter q.accepts_narrow? _

theorem mem_query {direction : Direction} {method : SortMethod} {n : Release} :
    n ∈ s.query q b direction method ↔
      ∃ r, (s.scope q).get? r.id = some r ∧ q.accepts r = true ∧ r.narrow? b.accepts = some n := by
  simp only [query_eq, candidates_eq, List.mem_filterMap, List.mem_filter, Catalog.mem_ordered,
    and_assoc]

theorem nodup_ids_query (s : Snapshot) (q : ReleaseCriteria) (b : BinaryCriteria)
    (direction : Direction) (method : SortMethod) :
    ((s.query q b direction method).map (·.id)).Nodup := by
  have hperm := ((s.scope q).narrow b.accepts).ordered_perm direction method
  have hids : (((s.scope q).narrow b.accepts).ordered direction method).Pairwise
      fun r t => r.id ≠ t.id :=
    hperm.symm.pairwise ((s.scope q).narrow b.accepts).pairwise_ids_ne fun h => h.symm
  rw [query_eq_filter]
  exact List.pairwise_map.2 (hids.filter _)

/-- A query finds the releases of its catalog that meet the criteria and have a binary that meets
its own, each once and with those binaries only, in the order that is asked for; and it is the
listing of the narrowed catalog, restricted to the releases that meet the criteria. -/
theorem query_exact (s : Snapshot) (q : ReleaseCriteria) (b : BinaryCriteria)
    (direction : Direction) (method : SortMethod) :
    (∀ n, n ∈ s.query q b direction method ↔
      ∃ r, (s.scope q).get? r.id = some r ∧ q.accepts r = true ∧
        (∃ x ∈ r.binaries, b.accepts x = true) ∧
          n = { r with binaries := r.binaries.filter b.accepts }) ∧
    (∀ r, q.accepts r = true ↔ q.Admits r) ∧ (∀ x, b.accepts x = true ↔ b.Admits x) ∧
    ((s.query q b direction method).map (·.id)).Nodup ∧
    (s.query q b .ascending method).Pairwise (fun r t => method.compare r t = .lt) ∧
    s.query q b .descending method = (s.query q b .ascending method).reverse ∧
    s.query q b direction method =
      (((s.scope q).narrow b.accepts).ordered direction method).filter q.accepts := by
  refine ⟨fun n => ?_, fun r => q.accepts_iff, fun x => b.accepts_iff,
    s.nodup_ids_query q b direction method, ?_, ?_, s.query_eq_filter q b direction method⟩
  · simp only [mem_query, Release.narrow?_eq_some]
    rfl
  · rw [query_eq_filter]
    exact (Catalog.pairwise_ordered _ method).filter _
  · rw [query_eq_filter, query_eq_filter, Catalog.ordered_descending, List.filter_reverse]

end Snapshot

end ReleaseCatalog

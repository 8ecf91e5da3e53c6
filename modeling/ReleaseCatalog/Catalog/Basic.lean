import Std.Data.ExtTreeMap
import ReleaseCatalog.Catalog.Order

namespace ReleaseCatalog

namespace Catalog

/-- Every release is kept under its own id. -/
def IsKeyed (entries : Std.ExtTreeMap String Release) : Prop :=
  ∀ (id : String) (r : Release), entries[id]? = some r → r.id = id

theorem IsKeyed.empty : IsKeyed ∅ := by
  simp [IsKeyed]

theorem IsKeyed.insert {m : Std.ExtTreeMap String Release} (h : IsKeyed m) (r : Release) :
    IsKeyed (m.insert r.id r) := by
  intro id s hs
  rw [Std.ExtTreeMap.getElem?_insert] at hs
  split at hs
  · next he => exact (Option.some.inj hs) ▸ Std.LawfulEqCmp.eq_of_compare he
  · exact h id s hs

def insertEntries (m : Std.ExtTreeMap String Release) (rs : List Release) :
    Std.ExtTreeMap String Release :=
  rs.foldl (fun m r => m.insert r.id r) m

theorem IsKeyed.insertEntries {m : Std.ExtTreeMap String Release} (h : IsKeyed m)
    (rs : List Release) : IsKeyed (insertEntries m rs) := by
  induction rs generalizing m with
  | nil => exact h
  | cons r rs ih => exact ih (h.insert r)

theorem IsKeyed.erase {m : Std.ExtTreeMap String Release} (h : IsKeyed m) (id : String) :
    IsKeyed (m.erase id) := by
  intro id' r hr
  rw [Std.ExtTreeMap.getElem?_erase] at hr
  split at hr
  · cases hr
  · exact h id' r hr

theorem IsKeyed.filter {m : Std.ExtTreeMap String Release} (h : IsKeyed m)
    (keep : String → Release → Bool) : IsKeyed (m.filter keep) := by
  intro id r hr
  rw [Std.ExtTreeMap.getElem?_filter] at hr
  exact h id r (Option.eq_some_of_pfilter_eq_some hr)

theorem IsKeyed.narrow {m : Std.ExtTreeMap String Release} (h : IsKeyed m)
    (keep : Binary → Bool) : IsKeyed (m.filterMap fun _ r => Release.narrow? keep r) := by
  intro id r hr
  rw [Std.ExtTreeMap.getElem?_filterMap] at hr
  obtain ⟨s, hs, hr⟩ := Option.pbind_eq_some_iff.1 hr
  rw [Release.narrow?_eq] at hr
  split at hr
  · obtain rfl := Option.some.inj hr
    exact h id s hs
  · cases hr

/-- The releases of the entries in the order of their ids. -/
def values (m : Std.ExtTreeMap String Release) : List Release := m.toList.map (·.2)

end Catalog

/-- A catalog: its releases by id, and the same releases in the order of each method. -/
structure Catalog where
  entries : Std.ExtTreeMap String Release
  byVersion : Std.ExtTreeSet Release (SortMethod.compare .byVersion)
  byTime : Std.ExtTreeSet Release (SortMethod.compare .byTime)
  id_eq : Catalog.IsKeyed entries
  byVersion_eq : byVersion = SortMethod.byVersion.arrange (Catalog.values entries)
  byTime_eq : byTime = SortMethod.byTime.arrange (Catalog.values entries)

namespace Catalog

/-- The catalog with the given entries. Both orders are built anew. -/
def ofEntries (m : Std.ExtTreeMap String Release) (h : IsKeyed m) : Catalog where
  entries := m
  byVersion := SortMethod.byVersion.arrange (values m)
  byTime := SortMethod.byTime.arrange (values m)
  id_eq := h
  byVersion_eq := rfl
  byTime_eq := rfl

def get? (c : Catalog) (id : String) : Option Release := c.entries[id]?

/-- A catalog is told by the releases that it has under each id; the orders follow from them. -/
@[ext]
theorem ext {c d : Catalog} (h : ∀ id : String, c.get? id = d.get? id) : c = d := by
  obtain ⟨m, v, t, hm, rfl, rfl⟩ := c
  obtain ⟨n, v, t, hn, rfl, rfl⟩ := d
  obtain rfl : m = n := Std.ExtTreeMap.ext_getElem? h
  rfl

instance : DecidableEq Catalog := fun c d =>
  decidable_of_iff (c.entries = d.entries)
    ⟨fun h => ext fun _ => by rw [get?, get?, h], fun h => by rw [h]⟩

def contains (c : Catalog) (id : String) : Bool := c.entries.contains id

def releases (c : Catalog) : List Release := values c.entries

def ids (c : Catalog) : List String := c.entries.keys

def size (c : Catalog) : Nat := c.entries.size

def isEmpty (c : Catalog) : Bool := c.entries.isEmpty

def ordered (c : Catalog) : Direction → SortMethod → List Release
  | .ascending, .byVersion => c.byVersion.toList
  | .descending, .byVersion => c.byVersion.toList.reverse
  | .ascending, .byTime => c.byTime.toList
  | .descending, .byTime => c.byTime.toList.reverse

def empty : Catalog := ofEntries ∅ .empty

def insert (c : Catalog) (r : Release) : Catalog :=
  ofEntries (c.entries.insert r.id r) (c.id_eq.insert r)

/-- The catalog with the releases inserted in turn, so that of two with one id the later stays. -/
def insertAll (c : Catalog) (rs : List Release) : Catalog :=
  ofEntries (insertEntries c.entries rs) (c.id_eq.insertEntries rs)

def ofReleases (rs : List Release) : Catalog := empty.insertAll rs

def erase (c : Catalog) (id : String) : Catalog :=
  ofEntries (c.entries.erase id) (c.id_eq.erase id)

def retain (c : Catalog) (ids : List String) : Catalog :=
  ofEntries (c.entries.filter fun id _ => ids.contains id) (c.id_eq.filter _)

/-- The catalog of the releases narrowed to the binaries that `keep` accepts, without those that
no binary is left of. -/
def narrow (c : Catalog) (keep : Binary → Bool) : Catalog :=
  ofEntries (c.entries.filterMap fun _ r => r.narrow? keep) (c.id_eq.narrow keep)

/-- Whether the catalog holds the id with a release older than the given time. -/
def isOlder (c : Catalog) (id : String) (updatedAt : Instant) : Bool :=
  (c.get? id).any fun r => r.updatedAt.isBefore updatedAt

theorem id_of_get? {c : Catalog} {id : String} {r : Release} (h : c.get? id = some r) :
    r.id = id :=
  c.id_eq id r h

@[simp] theorem get?_empty (id : String) : empty.get? id = none := by
  simp [get?, empty, ofEntries]

theorem get?_insert (c : Catalog) (r : Release) (id : String) :
    (c.insert r).get? id = if r.id = id then some r else c.get? id := by
  simp [get?, insert, ofEntries, Std.ExtTreeMap.getElem?_insert]

@[simp] theorem insertAll_nil (c : Catalog) : c.insertAll [] = c := ext fun _ => rfl

@[simp] theorem insertAll_cons (c : Catalog) (r : Release) (rs : List Release) :
    c.insertAll (r :: rs) = (c.insert r).insertAll rs := ext fun _ => rfl

/-- Of the inserted releases of an id the last counts. -/
theorem get?_insertAll (c : Catalog) (rs : List Release) (id : String) :
    (c.insertAll rs).get? id = (rs.reverse.find? (·.id == id)).or (c.get? id) := by
  induction rs generalizing c with
  | nil => simp
  | cons r rs ih =>
    rw [insertAll_cons, ih, get?_insert, List.reverse_cons, List.find?_append, Option.or_assoc]
    by_cases h : r.id = id <;> simp [h]

theorem get?_erase (c : Catalog) (id id' : String) :
    (c.erase id).get? id' = if id = id' then none else c.get? id' := by
  simp [get?, erase, ofEntries, Std.ExtTreeMap.getElem?_erase]

theorem get?_retain (c : Catalog) (ids : List String) (id : String) :
    (c.retain ids).get? id = if id ∈ ids then c.get? id else none := by
  by_cases h : id ∈ ids
  · cases hr : c.entries[id]? <;>
      simp [get?, retain, ofEntries, Std.ExtTreeMap.getElem?_filter, h, hr]
  · simp [get?, retain, ofEntries, Std.ExtTreeMap.getElem?_filter, h]

theorem get?_narrow (c : Catalog) (keep : Binary → Bool) (id : String) :
    (c.narrow keep).get? id = (c.get? id).bind (·.narrow? keep) := by
  simp [get?, narrow, ofEntries, Std.ExtTreeMap.getElem?_filterMap]

theorem contains_eq_isSome (c : Catalog) (id : String) : c.contains id = (c.get? id).isSome := by
  rw [contains, get?, Std.ExtTreeMap.contains_eq_isSome_getElem?]

theorem mem_ids {c : Catalog} {id : String} : id ∈ c.ids ↔ c.contains id = true := by
  rw [ids, Std.ExtTreeMap.mem_keys, ← Std.ExtTreeMap.contains_iff_mem, contains]

theorem mem_releases {c : Catalog} {r : Release} : r ∈ c.releases ↔ c.get? r.id = some r := by
  simp only [releases, values, List.mem_map, Prod.exists, exists_eq_right,
    Std.ExtTreeMap.mem_toList_iff_getElem?_eq_some]
  constructor
  · rintro ⟨id, h⟩
    rw [c.id_eq id r h]
    exact h
  · exact fun h => ⟨r.id, h⟩

theorem length_releases (c : Catalog) : c.releases.length = c.size := by
  rw [releases, values, List.length_map, Std.ExtTreeMap.length_toList, size]

theorem map_id_releases (c : Catalog) : c.releases.map (·.id) = c.ids := by
  rw [releases, values, List.map_map, ids, ← Std.ExtTreeMap.map_fst_toList_eq_keys]
  refine List.map_congr_left fun p hp => ?_
  exact c.id_eq p.1 p.2 (Std.ExtTreeMap.mem_toList_iff_getElem?_eq_some.1 hp)

/-- The releases are listed by strictly ascending ids. -/
theorem pairwise_releases (c : Catalog) :
    c.releases.Pairwise fun r s => compare r.id s.id = .lt := by
  have h : (c.releases.map (·.id)).Pairwise fun a b => compare a b = .lt := by
    rw [map_id_releases]
    exact Std.ExtTreeMap.ordered_keys
  exact List.pairwise_map.1 h

end Catalog

/-- What has to change in a catalog so that it holds the releases of a list. -/
structure Difference where
  /-- The releases of the list that the catalog lacks or has an older copy of. -/
  upserts : List Release
  /-- The ids of the catalog that the list lacks. -/
  removals : List String
deriving DecidableEq, Repr

namespace Difference

def isEmpty (d : Difference) : Bool := d.upserts.isEmpty && d.removals.isEmpty

def apply (d : Difference) (c : Catalog) : Catalog :=
  d.removals.foldl Catalog.erase (c.insertAll d.upserts)

end Difference

namespace Catalog

/-- Whether a release is new to the catalog, or newer than the copy there. -/
def isOutdatedFor (c : Catalog) (r : Release) : Bool :=
  !c.contains r.id || c.isOlder r.id r.updatedAt

def difference (c : Catalog) (incoming : List Release) : Difference where
  upserts := incoming.filter c.isOutdatedFor
  removals := c.ids.filter fun id => !(incoming.map (·.id)).contains id

end Catalog

end ReleaseCatalog

import ReleaseCatalog.Catalog.Basic

namespace ReleaseCatalog

/-- The releases filed under a feature version. -/
structure Line where
  featureVersion : UInt32
  releases : Catalog
deriving DecidableEq

/-- A release that is filed under a feature version other than its own. -/
structure FeatureVersionMismatch where
  featureVersion : UInt32
  releaseId : String
  major : UInt32
deriving DecidableEq, Repr

def FeatureVersionMismatch.message (e : FeatureVersionMismatch) : String :=
  "Release " ++ e.releaseId ++ " has major version " ++ toString e.major.toNat ++
    " but belongs to feature version " ++ toString e.featureVersion.toNat

namespace Line

/-- The first release, by id, that is of another feature version. -/
def mismatch? (l : Line) : Option FeatureVersionMismatch :=
  (l.releases.releases.find? fun r => r.featureVersion != l.featureVersion).map fun r =>
    ⟨l.featureVersion, r.id, r.featureVersion⟩

end Line

namespace Snapshot

/-- Every line is filed under its own feature version. -/
def IsFiled (m : Std.ExtTreeMap UInt32 Line) : Prop :=
  ∀ (f : UInt32) (l : Line), m[f]? = some l → l.featureVersion = f

theorem IsFiled.empty : IsFiled ∅ := by
  simp [IsFiled]

theorem IsFiled.insert {m : Std.ExtTreeMap UInt32 Line} (h : IsFiled m) (l : Line) :
    IsFiled (m.insert l.featureVersion l) := by
  intro f k hk
  rw [Std.ExtTreeMap.getElem?_insert] at hk
  split at hk
  · next he => exact (Option.some.inj hk) ▸ Std.LawfulEqCmp.eq_of_compare he
  · exact h f k hk

/-- The catalog of all releases of some lines. Where lines hold different releases of one id, it has
the one of the greatest feature version. -/
def flatten (m : Std.ExtTreeMap UInt32 Line) : Catalog :=
  Catalog.ofReleases ((m.toList.map (·.2)).flatMap (·.releases.releases))

end Snapshot

/-- A snapshot: its lines by feature version, and the catalog of all their releases. -/
structure Snapshot where
  filed : Std.ExtTreeMap UInt32 Line
  all : Catalog
  isFiled : Snapshot.IsFiled filed
  all_eq : all = Snapshot.flatten filed

namespace Snapshot

/-- The snapshot with the given lines. The catalog of all releases is built anew. -/
def ofFiled (m : Std.ExtTreeMap UInt32 Line) (h : IsFiled m) : Snapshot where
  filed := m
  all := flatten m
  isFiled := h
  all_eq := rfl

def line? (s : Snapshot) (featureVersion : UInt32) : Option Line := s.filed[featureVersion]?

/-- A snapshot is told by the lines that it has. -/
@[ext]
theorem ext {s t : Snapshot} (h : ∀ f : UInt32, s.line? f = t.line? f) : s = t := by
  obtain ⟨m, c, hm, rfl⟩ := s
  obtain ⟨n, c, hn, rfl⟩ := t
  obtain rfl : m = n := Std.ExtTreeMap.ext_getElem? h
  rfl

instance : DecidableEq Snapshot := fun s t =>
  decidable_of_iff (s.filed = t.filed)
    ⟨fun h => ext fun _ => by rw [line?, line?, h], fun h => by rw [h]⟩

def empty : Snapshot := ofFiled ∅ .empty

/-- The snapshot with a line in the place of any other of its feature version. -/
def insert (s : Snapshot) (l : Line) : Snapshot :=
  ofFiled (s.filed.insert l.featureVersion l) (s.isFiled.insert l)

/-- The snapshot of some lines, of which the later counts where two have one feature version. -/
def ofLines (ls : List Line) : Snapshot := ls.foldl insert empty

def lines (s : Snapshot) : List Line := s.filed.toList.map (·.2)

def featureVersions (s : Snapshot) : List UInt32 := s.filed.keys

def catalog? (s : Snapshot) (featureVersion : UInt32) : Option Catalog :=
  (s.line? featureVersion).map (·.releases)

/-- The snapshot with a release added to the line of its feature version. -/
def addRelease (s : Snapshot) (featureVersion : UInt32) (r : Release) :
    Except FeatureVersionMismatch Snapshot :=
  if r.featureVersion = featureVersion then
    .ok (s.insert ⟨featureVersion, ((s.catalog? featureVersion).getD .empty).insert r⟩)
  else .error ⟨featureVersion, r.id, r.featureVersion⟩

/-- The snapshot without a release of a line. The line stays, even if nothing is left in it. -/
def removeRelease (s : Snapshot) (featureVersion : UInt32) (id : String) : Snapshot :=
  match s.catalog? featureVersion with
  | some c => if c.contains id then s.insert ⟨featureVersion, c.erase id⟩ else s
  | none => s

theorem featureVersion_of_line? {s : Snapshot} {f : UInt32} {l : Line} (h : s.line? f = some l) :
    l.featureVersion = f :=
  s.isFiled f l h

@[simp] theorem line?_empty (f : UInt32) : empty.line? f = none := by
  simp [line?, empty, ofFiled]

theorem line?_insert (s : Snapshot) (l : Line) (f : UInt32) :
    (s.insert l).line? f = if l.featureVersion = f then some l else s.line? f := by
  simp [line?, insert, ofFiled, Std.ExtTreeMap.getElem?_insert]

@[simp] theorem catalog?_empty (f : UInt32) : empty.catalog? f = none := by
  simp [catalog?]

theorem catalog?_insert (s : Snapshot) (l : Line) (f : UInt32) :
    (s.insert l).catalog? f = if l.featureVersion = f then some l.releases else s.catalog? f := by
  rw [catalog?, line?_insert, catalog?]
  split <;> rfl

theorem mem_lines {s : Snapshot} {l : Line} : l ∈ s.lines ↔ s.line? l.featureVersion = some l := by
  simp only [lines, List.mem_map, Prod.exists, exists_eq_right,
    Std.ExtTreeMap.mem_toList_iff_getElem?_eq_some]
  constructor
  · rintro ⟨f, h⟩
    rw [s.isFiled f l h]
    exact h
  · exact fun h => ⟨l.featureVersion, h⟩

/-- The lines are listed by strictly ascending feature versions. -/
theorem pairwise_lines (s : Snapshot) :
    s.lines.Pairwise fun k l => k.featureVersion < l.featureVersion := by
  have h : (s.lines.map (·.featureVersion)).Pairwise fun f g => compare f g = .lt := by
    have hkeys : s.lines.map (·.featureVersion) = s.featureVersions := by
      rw [lines, List.map_map, featureVersions, ← Std.ExtTreeMap.map_fst_toList_eq_keys]
      refine List.map_congr_left fun p hp => ?_
      exact s.isFiled p.1 p.2 (Std.ExtTreeMap.mem_toList_iff_getElem?_eq_some.1 hp)
    rw [hkeys]
    exact Std.ExtTreeMap.ordered_keys
  exact (List.pairwise_map.1 h).imp Std.compare_eq_lt.1

end Snapshot

end ReleaseCatalog

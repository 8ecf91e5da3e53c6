import ReleaseCatalog.Catalog.Snapshot
import ReleaseCatalog.Release.Document
import ReleaseCatalog.Version.Range

namespace ReleaseCatalog

/-- What is asked of releases. A criterion that is left out asks for nothing. -/
structure ReleaseCriteria where
  kind : Option ReleaseKind := none
  featureVersion : Option UInt32 := none
  name : Option String := none
  vendor : Option Vendor := none
  /-- Whether the line has to be, or must not be, one with long-term support. -/
  lts : Option Bool := none
  /-- The lines with long-term support. -/
  ltsVersions : List UInt32 := []
  range : Option VersionRange := none

namespace ReleaseCriteria

def accepts (q : ReleaseCriteria) (r : Release) : Bool :=
  q.kind.all (r.kind == ·) && q.featureVersion.all (r.featureVersion == ·) &&
    q.name.all (r.name == ·) && q.vendor.all (r.vendor == ·) &&
    q.lts.all (q.ltsVersions.contains r.featureVersion == ·) &&
    q.range.all (·.contains r.version)

end ReleaseCriteria

structure BinaryCriteria where
  os : Option OperatingSystem := none
  architecture : Option Architecture := none
  imageType : Option ImageType := none
  jvmVariant : Option JvmVariant := none
  heapSize : Option HeapSize := none
  /-- The project asked for; without it the primary one is. -/
  project : Option Project := none
  updatedBefore : Option Instant := none

namespace BinaryCriteria

def accepts (q : BinaryCriteria) (b : Binary) : Bool :=
  q.os.all (b.os == ·) && q.architecture.all (b.architecture == ·) &&
    q.imageType.all (b.imageType == ·) && q.jvmVariant.all (b.jvmVariant == ·) &&
    q.heapSize.all (b.heapSize == ·) && b.project == q.project.getD Project.primary &&
    q.updatedBefore.all b.updatedAt.isBefore

end BinaryCriteria

/-- What a query shows of a release: the release as it is where all its binaries are accepted, or
else with those that are, and nothing where no binary is left. -/
def Release.shown? (keep : Binary → Bool) (r : Release) : Option Release :=
  if r.binaries.all keep then if r.binaries.isEmpty then none else some r
  else if (r.withBinaries keep).binaries.isEmpty then none
  else some (r.withBinaries keep)

namespace Snapshot

/-- The releases of a line in the order of a method; none where there is no such line. -/
def ordered (s : Snapshot) (featureVersion : UInt32) (direction : Direction)
    (method : SortMethod) : List Release :=
  (s.catalog? featureVersion).elim [] (·.ordered direction method)

/-- The releases that a query looks through: those of one line if it names one, or else all. -/
def candidates (s : Snapshot) (q : ReleaseCriteria) (direction : Direction)
    (method : SortMethod) : List Release :=
  match q.featureVersion with
  | some f => s.ordered f direction method
  | none => s.all.ordered direction method

/-- The releases that meet the criteria, each narrowed to the binaries that meet theirs. -/
def query (s : Snapshot) (q : ReleaseCriteria) (b : BinaryCriteria) (direction : Direction)
    (method : SortMethod) : List Release :=
  ((s.candidates q direction method).filter q.accepts).filterMap (·.shown? b.accepts)

end Snapshot

/-- One page of a list, the pages counted from zero. A page that would begin beyond the greatest
count of 64 bits begins at that count. -/
def page {α : Type} (number size : UInt64) (xs : List α) : List α :=
  (xs.drop (min (number.toNat * size.toNat) (UInt64.size - 1))).take size.toNat

/-- Which lines have releases to offer. -/
structure Availability where
  /-- The lines with a generally available release. -/
  releases : List UInt32
  /-- Those of them with long-term support. -/
  ltsReleases : List UInt32
  mostRecentLts : Option UInt32
  mostRecentRelease : Option UInt32
  /-- The last line with any release, early access included. -/
  mostRecentVersion : Option UInt32
deriving DecidableEq, Repr

/-- What tells the platforms of binaries apart. -/
structure Platform where
  os : OperatingSystem
  architecture : Architecture
  imageType : ImageType
  jvmVariant : JvmVariant
  heapSize : HeapSize
deriving DecidableEq, Repr

namespace Platform

open Vocabulary (position)

/-- The order of platforms: by the places of their terms in the vocabularies. -/
def order : Platform → Platform → Ordering :=
  compareLex (compareOn (position ·.os)) <|
  compareLex (compareOn (position ·.architecture)) <|
  compareLex (compareOn (position ·.imageType)) <|
  compareLex (compareOn (position ·.jvmVariant)) (compareOn (position ·.heapSize))

instance : Ord Platform := ⟨order⟩

instance : Std.TransOrd Platform := by
  unfold Std.TransOrd
  show Std.TransCmp order
  unfold order
  infer_instance

end Platform

def Binary.platform (b : Binary) : Platform :=
  ⟨b.os, b.architecture, b.imageType, b.jvmVariant, b.heapSize⟩

/-- The latest binary for a platform and the release that it belongs to. -/
structure LatestBinary where
  releaseId : String
  releaseName : String
  version : Version
  binary : Binary
deriving DecidableEq, Repr

namespace Snapshot

def availability (s : Snapshot) (ltsVersions : List UInt32) : Availability :=
  let releases :=
    (s.lines.filter fun l => l.releases.releases.any (·.isGeneral)).map (·.featureVersion)
  let ltsReleases := releases.filter ltsVersions.contains
  { releases, ltsReleases
    mostRecentLts := ltsReleases.getLast?
    mostRecentRelease := releases.getLast?
    mostRecentVersion :=
      (s.lines.reverse.find? fun l => !l.releases.isEmpty).map (·.featureVersion) }

/-- The binaries of a release that meet the criteria, with what tells where they belong. -/
def offers (b : BinaryCriteria) (r : Release) : List LatestBinary :=
  (r.binaries.filter b.accepts).map (⟨r.id, r.name, r.version, ·⟩)

/-- The latest binary for each platform that a generally available release of a line has one for,
in the order of the platforms. -/
def latest (s : Snapshot) (featureVersion : UInt32) (b : BinaryCriteria) : List LatestBinary :=
  let offered :=
    ((s.ordered featureVersion .descending .byVersion).filter (·.isGeneral)).flatMap (offers b)
  let byPlatform : Std.ExtTreeMap Platform LatestBinary :=
    offered.foldl (fun m x => m.insertIfNew x.binary.platform x) ∅
  byPlatform.toList.map (·.2)

end Snapshot

open Json (record nat text)

namespace Availability

/-- The number of a line, or null where there is no such line. -/
def lineNumber (f : Option UInt32) : Json := f.elim .null (nat ·.toNat)

def toJson (a : Availability) : Json :=
  record
    [("available_releases", .array (a.releases.map (nat ·.toNat))),
      ("available_lts_releases", .array (a.ltsReleases.map (nat ·.toNat))),
      ("most_recent_lts", lineNumber a.mostRecentLts),
      ("most_recent_feature_release", lineNumber a.mostRecentRelease),
      ("most_recent_feature_version", lineNumber a.mostRecentVersion)]

end Availability

namespace LatestBinary

def toJson (b : LatestBinary) : Json :=
  record
    [("release_id", text b.releaseId), ("release_name", text b.releaseName),
      ("version", b.version.toJson), ("binary", b.binary.toJson)]

end LatestBinary

end ReleaseCatalog

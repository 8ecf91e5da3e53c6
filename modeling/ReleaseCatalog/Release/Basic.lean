import ReleaseCatalog.Release.Vocabulary
import ReleaseCatalog.Time.Instant
import ReleaseCatalog.Version.Basic

namespace ReleaseCatalog

structure Package where
  name : String
  link : String
  size : UInt64
  checksum : Option String
  signatureLink : Option String
deriving DecidableEq, Repr

/-- The sources of a release as a file to download. -/
structure SourcePackage where
  name : String
  link : String
  size : UInt64
deriving DecidableEq, Repr

/-- A build for one platform. -/
structure Binary where
  os : OperatingSystem
  architecture : Architecture
  imageType : ImageType
  jvmVariant : JvmVariant
  heapSize : HeapSize
  project : Project
  updatedAt : Instant
  downloadCount : UInt64
  package : Package
deriving DecidableEq, Repr

/-- A release. Its id tells it from all others. -/
structure Release where
  id : String
  kind : ReleaseKind
  name : String
  link : String
  /-- When the release was published. -/
  timestamp : Instant
  updatedAt : Instant
  vendor : Vendor
  version : Version
  downloadCount : UInt64
  binaries : List Binary
  source : Option SourcePackage
deriving DecidableEq, Repr

namespace Release

def featureVersion (r : Release) : UInt32 := r.version.major

def isGeneral (r : Release) : Bool := r.kind == .generalAvailability

/-- The release with only the binaries that `keep` accepts. -/
def withBinaries (keep : Binary → Bool) (r : Release) : Release :=
  { r with binaries := r.binaries.filter keep }

/-- The release with only the binaries that `keep` accepts, if there are any. A release that loses
none of its binaries is kept as it is. -/
def narrow? (keep : Binary → Bool) (r : Release) : Option Release :=
  if r.binaries.isEmpty then none
  else if r.binaries.all keep then some r
  else if (r.withBinaries keep).binaries.isEmpty then none
  else some (r.withBinaries keep)

theorem withBinaries_eq_self {keep : Binary → Bool} {r : Release}
    (h : r.binaries.all keep = true) : r.withBinaries keep = r := by
  rw [withBinaries, List.filter_eq_self.2 (List.all_eq_true.1 h)]

theorem isEmpty_withBinaries (keep : Binary → Bool) (r : Release) :
    (r.withBinaries keep).binaries.isEmpty = !r.binaries.any keep := by
  rw [withBinaries]
  induction r.binaries with
  | nil => rfl
  | cons x xs ih =>
    rw [List.filter_cons, List.any_cons]
    cases keep x with
    | true => rfl
    | false => exact ih

/-- On each of its ways, narrowing comes down to whether any binary is accepted. -/
theorem narrow?_eq (keep : Binary → Bool) (r : Release) :
    r.narrow? keep = if r.binaries.any keep then some (r.withBinaries keep) else none := by
  rw [narrow?, isEmpty_withBinaries]
  cases hany : r.binaries.any keep with
  | true =>
    have hne : ¬ r.binaries.isEmpty = true := by
      intro hempty
      rw [List.isEmpty_iff.1 hempty] at hany
      cases hany
    rw [if_neg hne]
    split
    · next hall => rw [withBinaries_eq_self hall, if_pos rfl]
    · rfl
  | false =>
    split
    · rfl
    · next hne =>
      have hall : ¬ r.binaries.all keep = true := by
        intro hall
        obtain ⟨x, xs, hx⟩ := List.exists_cons_of_ne_nil fun h => hne (List.isEmpty_iff.2 h)
        have hkeep := List.all_eq_true.1 hall x (by rw [hx]; exact List.mem_cons_self ..)
        have hnone := List.any_eq_false.1 hany x (by rw [hx]; exact List.mem_cons_self ..)
        exact hnone hkeep
      rw [if_neg hall]
      rfl

end Release

end ReleaseCatalog

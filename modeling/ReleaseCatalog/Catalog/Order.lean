import Std.Data.ExtTreeSet
import ReleaseCatalog.Release.Basic

namespace ReleaseCatalog

inductive SortMethod where
  | byVersion
  | byTime
deriving DecidableEq, Repr

inductive Direction where
  | ascending
  | descending
deriving DecidableEq, Repr

instance : Vocabulary SortMethod where
  kind := "sort method"
  all := [.byVersion, .byTime]
  word
    | .byVersion => "version"
    | .byTime => "time"

instance : Vocabulary Direction where
  kind := "sort order"
  all := [.ascending, .descending]
  word
    | .ascending => "asc"
    | .descending => "desc"

namespace Release

/-- By the rank of the versions, then by the time of publication, the name and the id. -/
def compareByVersion : Release → Release → Ordering :=
  compareLex (compareOn (·.version)) <|
  compareLex (compareOn (·.timestamp)) <|
  compareLex (compareOn (·.name)) (compareOn (·.id))

/-- By the time of publication, then by the rank of the versions, the name and the id. -/
def compareByTime : Release → Release → Ordering :=
  compareLex (compareOn (·.timestamp)) <|
  compareLex (compareOn (·.version)) <|
  compareLex (compareOn (·.name)) (compareOn (·.id))

instance : Std.TransCmp compareByVersion := by
  unfold compareByVersion
  infer_instance

instance : Std.TransCmp compareByTime := by
  unfold compareByTime
  infer_instance

end Release

/-- Both orders end with the id, so no two releases of a catalog share a place. -/
def SortMethod.compare : SortMethod → Release → Release → Ordering
  | .byVersion => Release.compareByVersion
  | .byTime => Release.compareByTime

instance (method : SortMethod) : Std.TransCmp method.compare := by
  cases method
  · exact inferInstanceAs (Std.TransCmp Release.compareByVersion)
  · exact inferInstanceAs (Std.TransCmp Release.compareByTime)

/-- The releases of a list as a set in the order of a method. Only the comparison tells the members
apart, so of releases that compare equal one is left out. -/
def SortMethod.arrange (method : SortMethod) (rs : List Release) :
    Std.ExtTreeSet Release method.compare :=
  .ofList rs method.compare

end ReleaseCatalog

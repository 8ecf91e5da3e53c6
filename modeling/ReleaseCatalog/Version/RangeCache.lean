import ReleaseCatalog.Version.Range

namespace ReleaseCatalog

/-- A range as it was read out of its specification once. Its number tells it from every other
reading, also of the same specification. -/
structure RangeReading where
  number : Nat
  range : VersionRange
deriving DecidableEq, Repr

/-- A memory of the range specifications read last, as many as its capacity. A new one takes the
place of the one that was asked for least recently. -/
structure RangeCache where
  capacity : Nat
  /-- How many ranges were read so far. -/
  made : Nat
  /-- The specifications held, the one asked for last in front. -/
  entries : List (String × RangeReading)

namespace RangeCache

def defaultCapacity : Nat := 256

def empty (capacity : Nat) : RangeCache := ⟨capacity, 0, []⟩

/-- A range that was asked for, and whether it was held already. -/
structure Answer extends RangeReading where
  held : Bool

/-- The range of a specification and the cache afterwards. A specification that cannot be read
leaves the cache as it is. -/
def lookup (cache : RangeCache) (spec : String) : Except RangeError Answer × RangeCache :=
  let others := cache.entries.filter (·.1 != spec)
  match cache.entries.lookup spec with
  | some reading => (.ok ⟨reading, true⟩, { cache with entries := (spec, reading) :: others })
  | none =>
    match VersionRange.parse spec with
    | .ok range =>
      let reading : RangeReading := ⟨cache.made, range⟩
      (.ok ⟨reading, false⟩,
        { cache with
          made := cache.made + 1
          entries := ((spec, reading) :: others).take cache.capacity })
    | .error e => (.error e, cache)

def size (cache : RangeCache) : Nat := cache.entries.length

end RangeCache

end ReleaseCatalog

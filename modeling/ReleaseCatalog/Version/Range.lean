import ReleaseCatalog.Version.Name

namespace ReleaseCatalog

open Text (isBlank trim)

/-- The versions between two bounds, either of which may be missing. -/
structure Interval where
  lower : Option Version
  lowerInclusive : Bool
  upper : Option Version
  upperInclusive : Bool
deriving DecidableEq, Repr

inductive VersionRange where
  /-- The versions of any of the intervals, which ascend and do not overlap. -/
  | intervals (parts : List Interval)
  /-- Only the version itself, whatever else ranks with it. -/
  | exact (version : Version)
deriving DecidableEq, Repr

/-- What a range specification can be refused for. -/
inductive RangeError where
  | empty
  /-- A bracket is not closed. -/
  | unbounded (spec : String)
  /-- An interval starts before the one in front of it ends. -/
  | overlap (spec : String)
  /-- An upper bound ranks below the lower one. -/
  | inverted (spec : String)
  /-- Both bounds are the same text. -/
  | identicalBounds (spec : String)
  /-- A version on its own stands in a bracket that leaves it out. -/
  | singleVersionNotInclusive (spec : String)
  /-- Something that is no interval follows an interval. -/
  | mixedSet (spec : String)
  | version (cause : UnrecognizedVersion)
deriving DecidableEq, Repr

def RangeError.message : RangeError → String
  | .empty => "Empty range specification"
  | .unbounded spec => "Unbounded range: " ++ spec
  | .overlap spec => "Ranges overlap: " ++ spec
  | .inverted spec => "Range defies version ordering: " ++ spec
  | .identicalBounds spec => "Range cannot have identical boundaries: " ++ spec
  | .singleVersionNotInclusive spec => "Single version must be surrounded by []: " ++ spec
  | .mixedSet spec => "Only fully-qualified sets allowed in multiple set scenario: " ++ spec
  | .version cause => "Invalid version in range: " ++ cause.message

/-- Reads a version as a bound: all of the text, and of any line. -/
def bound (s : List Char) : Except RangeError Version :=
  (Version.parse .whole false (String.ofList s)).mapError .version

def bound? (s : List Char) : Except RangeError (Option Version) :=
  if s.isEmpty then .ok none else some <$> bound s

namespace Interval

def exact (v : Version) : Interval := ⟨some v, true, some v, true⟩

/-- Whether a version of the rank that `compare bound version` gives lies above the lower bound. -/
def admitsAbove (inclusive : Bool) : Ordering → Bool
  | .lt => true
  | .eq => inclusive
  | .gt => false

def contains (i : Interval) (v : Version) : Bool :=
  i.lower.all (fun l => admitsAbove i.lowerInclusive (compare l v)) &&
    i.upper.all fun u => admitsAbove i.upperInclusive (compare v u)

/-- Whether `next` starts before this interval ends. Two intervals may share a bound. -/
def overlaps (i next : Interval) : Bool :=
  match i.upper, next.lower with
  | some u, some l => compare l u == .lt
  | _, _ => true

def parse (s : List Char) : Except RangeError Interval := do
  let spec := String.ofList s
  let lowerInclusive := s.head? == some '['
  let upperInclusive := s.getLast? == some ']'
  let inner := trim (s.drop 1).dropLast
  if inner.contains ',' then
    let first := trim (inner.takeWhile (· != ','))
    let second := trim ((inner.dropWhile (· != ',')).drop 1)
    if first = second then throw (.identicalBounds spec)
    let lower ← bound? first
    let upper ← bound? second
    if let (some l, some u) := (lower, upper) then
      if compare u l == .lt then throw (.inverted spec)
    return ⟨lower, lowerInclusive, upper, upperInclusive⟩
  else
    unless lowerInclusive && upperInclusive do throw (.singleVersionNotInclusive spec)
    return exact (← bound inner)

end Interval

namespace VersionRange

/-- The pieces of a range specification. -/
inductive Piece where
  /-- A bracket and all up to the first that closes. -/
  | bracketed (s : List Char)
  /-- A bracket that nothing closes. -/
  | unclosed
  /-- All from a character on that opens no bracket. -/
  | rest (s : List Char)
deriving DecidableEq, Repr

def opens (c : Char) : Bool := c == '[' || c == '('

def closes (c : Char) : Bool := c == ']' || c == ')'

mutual

/-- The pieces of a text that goes on between two brackets. One comma may be passed over. -/
def piecesBetween (comma : Bool) : List Char → List Piece
  | [] => []
  | c :: s =>
    if isBlank c then piecesBetween comma s
    else if c == ',' && comma then piecesBetween false s
    else if opens c then piecesWithin [c] s
    else [.rest (c :: s)]

/-- The pieces of a text that goes on within a bracket whose text so far is `seen`, backwards. -/
def piecesWithin (seen : List Char) : List Char → List Piece
  | [] => [.unclosed]
  | c :: s =>
    if closes c then .bracketed (c :: seen).reverse :: piecesBetween true s
    else piecesWithin (c :: seen) s

end

/-- The range that the pieces of `spec` make up, after the intervals `seen`, the last one first. -/
def ofPieces (spec : String) (seen : List Interval) : List Piece → Except RangeError VersionRange
  | [] => .ok (.intervals seen.reverse)
  | .unclosed :: _ => .error (.unbounded spec)
  | .bracketed s :: pieces => do
    let i ← Interval.parse s
    if seen.head?.any (·.overlaps i) then throw (.overlap spec)
    ofPieces spec (i :: seen) pieces
  | .rest s :: _ =>
    if seen.isEmpty then (fun v => .exact v.withoutIgnoredTag) <$> bound s
    else .error (.mixedSet spec)

def parse (spec : String) : Except RangeError VersionRange :=
  let s := trim spec.toList
  if s.isEmpty then .error .empty else ofPieces (String.ofList s) [] (piecesBetween false s)

/-- Whether the version without its ignored tag lies in the range, so that a nightly build meets
each range that holds its release. -/
def contains (r : VersionRange) (v : Version) : Bool :=
  match r with
  | .intervals parts => parts.any (·.contains v.withoutIgnoredTag)
  | .exact version => v.withoutIgnoredTag = version

/-- The intervals whose union the range lies in. -/
def toIntervals : VersionRange → List Interval
  | .intervals parts => parts
  | .exact version => [.exact version]

end VersionRange

end ReleaseCatalog

namespace ReleaseCatalog

/-- The parts that a version is made of. -/
structure Components where
  major : UInt32
  minor : UInt32
  security : UInt32
  /-- The pre-release tag, such as `ea`. -/
  pre : Option String
  patch : Option UInt32
  build : UInt32
  additional : Option UInt32
  /-- What follows the numbers of the build, such as a date. -/
  optional : Option String
deriving DecidableEq, Repr

/-- A version: its parts and the string that it is shown as. A document may show a version as any
string, so the string is a part of its own and takes part in equality. -/
structure Version extends Components where
  canonical : String
deriving DecidableEq, Repr

def decimal (n : UInt32) : List Char := Nat.toDigits 10 n.toNat

namespace Components

/-- The part of the canonical string that the build adds: nothing at all for build zero without
an additional number or an optional suffix. -/
def buildText (c : Components) : List Char :=
  if 0 < c.build || c.additional.isSome || c.optional.isSome then
    '+' :: decimal c.build ++ c.additional.elim [] (fun n => '.' :: decimal n) ++
      c.optional.elim [] fun o => '.' :: o.toList
  else []

def text (c : Components) : List Char :=
  decimal c.major ++ '.' :: decimal c.minor ++ '.' :: decimal c.security ++
    c.patch.elim [] (fun n => '.' :: decimal n) ++ c.pre.elim [] (fun p => '-' :: p.toList) ++
    c.buildText

/-- The version with these parts, shown by its canonical string. -/
def version (c : Components) : Version := ⟨c, String.ofList c.text⟩

end Components

namespace Version

/-- The tag of nightly builds, which no comparison sees. -/
def ignoredTag : String := "beta"

/-- The version `major.minor.security` of the given build. -/
def release (major minor security build : UInt32) : Version :=
  Components.version ⟨major, minor, security, none, none, build, none, none⟩

/-- The pre-release tag that comparisons see. -/
def rankedTag (v : Version) : Option String := v.pre.filter (· != ignoredTag)

def isPreRelease (v : Version) : Bool := v.rankedTag.isSome

/-- The version without the ignored tag. Taking the tag away gives the version its canonical
string; a version without the tag keeps the string that it has. -/
def withoutIgnoredTag (v : Version) : Version :=
  if v.pre = some ignoredTag then Components.version { v.toComponents with pre := none } else v

/-- The rank of versions: the numbers from the left, a missing patch before any; then a tagged
version before its release, tags in the order of their characters; then the build. Versions that
differ in the ignored tag, the optional suffix or the shown string alone rank equal. -/
def rank : Version → Version → Ordering :=
  compareLex (compareOn (·.major)) <|
  compareLex (compareOn (·.minor)) <|
  compareLex (compareOn (·.security)) <|
  compareLex (compareOn (·.patch)) <|
  compareLex (compareOn (!·.isPreRelease)) <|
  compareLex (compareOn (·.rankedTag.getD "")) <|
  compareLex (compareOn (·.build)) (compareOn (·.additional))

instance : Ord Version := ⟨rank⟩

instance : Std.TransOrd Version := by
  unfold Std.TransOrd
  show Std.TransCmp rank
  unfold rank
  infer_instance

end Version

end ReleaseCatalog

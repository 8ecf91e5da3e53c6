import ReleaseCatalog.Text.Character
import ReleaseCatalog.Version.Family

namespace ReleaseCatalog

open Text (trim percentDecode quote)

/-- How much of the normalised name a version has to fill. -/
inductive Extent where
  | whole
  | anywhere
deriving DecidableEq, Repr

/-- The names of virtual machines that follow a version as its brand. -/
def brands : List (List Char) := ["openj9".toList, "dragonwell".toList]

/-- A character after a brand. Two characters outside ASCII count as other forms of `s` and `k`. -/
def isBrandTail (c : Char) : Bool :=
  c.isAlphanum || c == '.' || c == '-' || c == '_' || c == '\u017f' || c == '\u212a'

/-- Whether the text, all of it, is a brand after its hyphen or underscore: the brand in any case,
and then nothing, or a hyphen or underscore and tail characters. -/
def isBranding : List Char → Bool
  | [] => false
  | c :: s => (c == '-' || c == '_') && brands.any fun brand =>
    (s.take brand.length).map Char.toLower == brand &&
      match s.drop brand.length with
      | [] => true
      | d :: t => (d == '-' || d == '_') && t.all isBrandTail

/-- The text in front of its longest end that is a branding. -/
def withoutBranding : List Char → List Char
  | [] => []
  | c :: s => if isBranding (c :: s) then [] else c :: withoutBranding s

/-- The part of a release name that the families are tried on. -/
def normalizeName (s : String) : List Char :=
  trim (withoutBranding (percentDecode (trim s.toList)))

/-- A name in which no version was found. -/
structure UnrecognizedVersion where
  input : String
deriving DecidableEq, Repr

def UnrecognizedVersion.message (e : UnrecognizedVersion) : String :=
  "No recognizable version in " ++ quote e.input

namespace Version

/-- Whether the version belongs to a line that a release can have. -/
def isPlausible (v : Version) : Bool := 8 ≤ v.major && v.major ≤ 99

/-- The versions that a family finds in a normalised name, in the order of finding. -/
def found (extent : Extent) (f : Family) (s : List Char) : List Version :=
  match extent with
  | .whole => (f.name.whole? s).toList.filterMap Spelling.version?
  | .anywhere => (f.names s).filterMap Spelling.version?

/-- The first version of the first family that finds one, among all versions or among the
plausible ones only. -/
def select? (extent : Extent) (plausibleOnly : Bool) (s : List Char) : Option Version :=
  Family.all.findSome? fun f =>
    (found extent f s).find? fun v => !plausibleOnly || v.isPlausible

/-- Reads a version out of a name: the name is normalised, and the first family that finds a version
decides. -/
def parse (extent : Extent) (plausibleOnly : Bool) (input : String) :
    Except UnrecognizedVersion Version :=
  match select? extent plausibleOnly (normalizeName input) with
  | some v => .ok v
  | none => .error ⟨input⟩

/-- Reads the plausible version that the name of a release contains. -/
def ofReleaseName (name : String) : Except UnrecognizedVersion Version :=
  parse .anywhere true name

end Version

end ReleaseCatalog

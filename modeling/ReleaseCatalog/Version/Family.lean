import ReleaseCatalog.Text.Character
import ReleaseCatalog.Text.Reading
import ReleaseCatalog.Version.Basic

namespace ReleaseCatalog

open Text (Reading isDigit isAsciiDigit isWordChar)

/-- What a name writes in each place, before the numbers are read. -/
structure Spelling where
  major : List Char
  minor : Option (List Char) := none
  security : Option (List Char) := none
  patch : Option (List Char) := none
  pre : Option (List Char) := none
  build : Option (List Char) := none
  additional : Option (List Char) := none
  optional : Option (List Char) := none
deriving DecidableEq, Repr

/-- The number that ASCII digits write, if it fits into 32 bits. -/
def number? (w : List Char) : Option UInt32 :=
  if w.all isAsciiDigit && Nat.ofDigitChars 10 w 0 < UInt32.size then
    some (UInt32.ofNat (Nat.ofDigitChars 10 w 0))
  else none

/-- The number in a place that may be empty; the outer absence is a place whose number cannot be
read. -/
def optionalNumber? : Option (List Char) → Option (Option UInt32)
  | none => some none
  | some w => (number? w).map some

def Spelling.version? (s : Spelling) : Option Version := do
  let major ← number? s.major
  let minor ← optionalNumber? s.minor
  let security ← optionalNumber? s.security
  let patch ← optionalNumber? s.patch
  let build ← optionalNumber? s.build
  let additional ← optionalNumber? s.additional
  return Components.version
    { major, patch, additional
      minor := minor.getD 0
      security := security.getD 0
      build := build.getD 0
      pre := s.pre.map String.ofList
      optional := s.optional.map String.ofList }

inductive Family where
  /-- A dated nightly build, such as `13u-2019-10-30-23-10`. -/
  | nightly
  /-- A name of the numbering that ended with line 8, such as `1.8.0_212-b04`. -/
  | legacy
  /-- An update of a line, such as `jdk8u212-b03`. -/
  | update
  /-- A version string in the scheme of JEP 223, such as `jdk-11.0.7-ea+9`. -/
  | jep223
deriving DecidableEq, Repr

namespace Family

open Text.Reading

/-- The families in the order in which a name is tried against them. -/
def all : List Family := [nightly, legacy, update, jep223]

def product : Reading Unit := do
  let _ ← maybe do
    literal "jdk".toList
    maybe (literal ['-'])

/-- A character of the first class, and then a run of the second. -/
def headed (first rest : Char → Bool) : Reading (List Char) := do
  let c ← one first
  let w ← run rest
  return c :: w

/-- A number whose first digit is from `1` to `9`. -/
def leading : Reading (List Char) := headed (fun c => '1' ≤ c && c ≤ '9') isDigit

/-- A mark, and a number after it. -/
def numberAfter (mark : List Char) : Reading (List Char) := do
  literal mark
  many isDigit

/-- A build number after its mark, and perhaps one more after a dot. -/
def buildAfter (mark : List Char) : Reading (List Char × Option (List Char)) := do
  let build ← numberAfter mark
  let additional ← maybe (numberAfter ['.'])
  return (build, additional)

/-- A date and time of day, the numbers joined by hyphens. -/
def date : Reading (List Char) := do
  let year ← exactly isDigit 4
  let fields ← go 4
  return year ++ fields
where
  /-- As many numbers of two digits, each after a hyphen. -/
  go : Nat → Reading (List Char)
    | 0 => done []
    | n + 1 => do
      literal ['-']
      let field ← exactly isDigit 2
      let fields ← go n
      return '-' :: field ++ fields

def nightlyName : Reading Spelling := do
  product
  let major ← leading
  let _ ← maybe (literal ['u'])
  literal ['-']
  let optional ← date
  return { major, optional := some optional }

def legacyName : Reading Spelling := do
  literal "1.".toList
  let major ← one fun c => '1' ≤ c && c ≤ '9'
  literal ".0_".toList
  let security ← many isDigit
  let build ← maybe (buildAfter "-b".toList)
  return { major := [major], security := some security, build := build.map (·.1),
           additional := build.bind (·.2) }

def updateName : Reading Spelling := do
  let _ ← maybe (literal "jdk".toList)
  let major ← leading
  literal ['u']
  let security ← many isDigit
  let build ← maybe (buildAfter "-b".toList)
  return { major, security := some security, build := build.map (·.1),
           additional := build.bind (·.2) }

def jep223Name : Reading Spelling := do
  product
  let major ← leading
  let minor ← maybe (numberAfter ['.'])
  let security ← maybe (numberAfter ['.'])
  let patch ← maybe (numberAfter ['.'])
  let pre ← maybe do
    literal ['-']
    headed Char.isAlpha Char.isAlphanum
  let build ← maybe (buildAfter ['+'])
  let optional ← maybe do
    literal ['-']
    many fun c => c.isAlphanum || c == '-' || c == '.'
  return { major, minor, security, patch, pre, optional, build := build.map (·.1),
           additional := build.bind (·.2) }

def name : Family → Reading Spelling
  | nightly => nightlyName
  | legacy => legacyName
  | update => updateName
  | jep223 => jep223Name

/-- What has to stand between the character `before` and a name of the family that is found inside
a text. A dated name begins where the text begins or after one character that cannot belong to a
number; a name of the legacy family begins where a word begins. -/
def lead (before : Option Char) : Family → Reading Unit
  | nightly =>
    let gap : Reading Unit := do
      let _ ← one fun c => !(isDigit c || c == '.' || c == '+')
    if before.isNone then orElse (done ()) gap else gap
  | legacy => if before.any isWordChar then fun _ => [] else done ()
  | update | jep223 => done ()

/-- The names of the family in a text, each the first after the one before it. `before` is the
character in front of the text, and the first `skip` characters belong to the last name found. -/
def namesFrom (f : Family) (before : Option Char) (skip : Nat) : List Char → List Spelling
  | [] => []
  | c :: s =>
    match skip with
    | skip + 1 => namesFrom f (some c) skip s
    | 0 =>
      match first? (lead before f >>= fun _ => f.name) (c :: s) with
      | some (spelling, rest) => spelling :: namesFrom f (some c) (s.length - rest.length) s
      | none => namesFrom f (some c) 0 s

/-- The names of the family in a text, from the left, none overlapping another. -/
def names (f : Family) (s : List Char) : List Spelling := namesFrom f none 0 s

end Family

end ReleaseCatalog

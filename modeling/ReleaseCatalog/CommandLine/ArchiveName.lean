import ReleaseCatalog.Text.Character

namespace ReleaseCatalog.CommandLine

open Text (percentBytes)

/-- What a run may do to the file of an archive. Each right includes those before it. -/
inductive Access where
  | read
  | change
  | create
deriving DecidableEq, Repr

def Access.isWithin : Access → Access → Bool
  | .read, _ | .change, .change | .change, .create | .create, .create => true
  | .change, .read | .create, .read | .create, .change => false

/-- Where an archive is kept, and how it is opened. -/
structure ArchiveName where
  /-- The path of its file, or `none` for an archive that is gone after the run. -/
  path : Option String
  access : Access := .create
  /-- Whether its file is said never to change. -/
  frozen : Bool := false
  /-- Whether other runs may have it open too. -/
  shared : Bool := true
deriving DecidableEq, Repr

namespace ArchiveName

/-- The path of archives that are kept nowhere. -/
def unkept : String := ":memory:"

/-- What a part of a URI stands for. An escaped zero byte ends it, and bytes that are no text in
UTF-8 stand for one character each. -/
def decode (s : List Char) : String :=
  let bytes := (percentBytes s).takeWhile (· != 0)
  match (ByteArray.mk bytes.toArray).utf8Decode? with
  | some cs => String.ofList cs.toList
  | none => String.ofList (bytes.map fun b => Char.ofNat b.toNat)

def cut (c : Char) (s : List Char) : List Char × List Char :=
  (s.takeWhile (· != c), (s.dropWhile (· != c)).drop 1)

/-- The options of a query in their order. One without a name does not count. -/
def options (query : List Char) : List (String × String) :=
  (query.splitOn '&').filterMap fun option =>
    let (name, value) := cut '=' option
    if (decode name).isEmpty then none else some (decode name, decode value)

/-- The URI after its scheme without its authority, which may only be this machine. -/
def withoutAuthority? : List Char → Option (List Char)
  | '/' :: '/' :: s =>
    let authority := s.takeWhile (· != '/')
    if authority.isEmpty || authority == "localhost".toList then some (s.dropWhile (· != '/'))
    else none
  | s => some s

/-- The access that a mode grants, where `none` is that of an archive kept nowhere. -/
def mode? : String → Option (Option Access)
  | "ro" => some (some .read)
  | "rw" => some (some .change)
  | "rwc" => some (some .create)
  | "memory" => some none
  | _ => none

/-- The access after a further mode, which may not grant more than the mode before it. -/
def afterMode? (access : Option Access) (mode : String) : Option (Option Access) := do
  let next ← mode? mode
  match access, next with
  | some a, some b => if b.isWithin a then some next else none
  | _, _ => some next

/-- The kinds of caches that may be asked for. They make no difference to one run. -/
def cacheKinds : List String := ["shared", "private"]

/-- The way to lock that keeps the archive nowhere. -/
def unkeptLock : String := "memdb"

/-- The ways to lock a file, and whether other runs may then have it open too. -/
def lockKinds : List (String × Bool) :=
  [("unix", true), ("unix-excl", true), ("unix-none", false), ("unix-dotfile", false),
    (unkeptLock, false)]

/-- Whether an option is switched on. A number counts by its last eight bits. -/
def isOn (name : String) (options : List (String × String)) : Bool :=
  match options.lookup name with
  | none => false
  | some value =>
    let digits := value.toList.takeWhile Char.isDigit
    if digits.isEmpty then ["on", "yes", "true"].contains (value.map Char.toLower)
    else Nat.ofDigitChars 10 digits 0 % 256 != 0

/-- Whether an option that must be one of some words is so wherever it stands. -/
def isAmong (words : List String) (name : String) (options : List (String × String)) : Bool :=
  options.all fun (n, value) => n != name || words.contains value

/-- The archive that a URI tells, given what follows the scheme. -/
def ofUri? (s : List Char) : Option ArchiveName := do
  let (address, query) := cut '?' (cut '#' (← withoutAuthority? s)).1
  let path := decode address
  let options := options query
  if !isAmong cacheKinds "cache" options then none
  else
    let modes := options.filterMap fun (n, mode) => if n == "mode" then some mode else none
    let access ← modes.foldlM afterMode? (some .create)
    let lock := (options.reverse.lookup "vfs").getD "unix"
    let shared ← lockKinds.lookup lock
    let frozen := isOn "immutable" options
    match access with
    | none => some { path := none }
    | some access =>
      if path.isEmpty || path == unkept then some { path := none, access }
      else if lock == unkeptLock then
        some { path := none, access := if frozen then .read else access }
      else some { path := some path, access, frozen, shared := shared && !isOn "nolock" options }

def parse? (s : String) : Option ArchiveName :=
  match s.toList with
  | 'f' :: 'i' :: 'l' :: 'e' :: ':' :: uri => ofUri? uri
  | _ => some { path := if s == unkept then none else some s }

end ArchiveName

end ReleaseCatalog.CommandLine

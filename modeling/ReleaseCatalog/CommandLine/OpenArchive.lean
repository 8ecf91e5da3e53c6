import ReleaseCatalog.CommandLine.ArchiveName
import ReleaseCatalog.CommandLine.Disk

namespace ReleaseCatalog.CommandLine

/-- Why an archive cannot be opened. -/
inductive OpenError where
  /-- A folder on the way to it cannot be made. -/
  | folder (cause : PathError)
  | unopened (name : String)
deriving DecidableEq, Repr

def OpenError.message : OpenError → String
  | .folder cause => cause.message
  | .unopened name => "failed to open " ++ name

/-- An archive that a run has open. -/
structure OpenArchive where
  archive : Archive
  /-- Where it is kept, if anywhere. -/
  place : Option Place
  /-- Whether it may be changed. -/
  writable : Bool
  /-- Whether other runs may have it open too. -/
  shared : Bool

/-- The longest path from the root, in bytes, that an archive may have. -/
def archivePathLimit : Nat := 504

/-- The end of the name of the file that holds what an archive was before a change. -/
def journalSuffix : String := "-journal"

/-- The end of the name of the file that gathers what is new in an open archive. -/
def logSuffix : String := "-wal"

/-- The end of the name of the file by which runs with one archive open agree. -/
def indexSuffix : String := "-shm"

namespace OpenArchive

/-- Goes on from a place by one name of an archive's path. The way may lead through what is not
there, but not through a file. -/
def step (d : Disk) (p : Place) (name : String) : Option Place :=
  let stays := name == "" || name == "." || name == ".."
  if !stays && (isOverlong name || (d.get? p).isSome) then none else some (p.step name)

/-- The place of an archive with the given path. Its folder must be there, and it may not be one
itself. -/
def place? (workingFolder path : String) (d : Disk) : Option Place := do
  let place ← (Place.namesOf path).foldlM (step d) (Place.start path)
  let whole := match place with
    | "/" :: _ => place.toPath
    | _ => workingFolder ++ "/" ++ place.toPath
  if whole.utf8ByteSize ≤ archivePathLimit && d.isFolder place.dropLast && !d.isFolder place then
    some place
  else none

/-- Whether the files beside an archive can be made. -/
def hasRoom (place : Place) (d : Disk) : Bool :=
  !d.isFolder (place.beside journalSuffix) && !d.isFolder (place.beside logSuffix) &&
    !(place.beside journalSuffix).any isOverlong

/-- Whether an archive that is opened by a name may be changed. -/
def mayChange (name : ArchiveName) (place : Place) (d : Disk) : Bool :=
  !name.frozen && name.access != .read && !(name.shared && d.isFolder (place.beside indexSuffix))

/-- A file opened as an archive, and whether that is new. A file of a single byte counts as empty,
and an empty file becomes a new archive. An archive that runs could not share so far is shared only
where it may be changed. -/
def ofContent? (name : ArchiveName) (place : Place) (d : Disk) :
    Content → Option (OpenArchive × Bool)
  | .text s =>
    if s.utf8ByteSize ≤ 1 && mayChange name place d && hasRoom place d then
      some (⟨.empty, some place, true, name.shared⟩, true)
    else none
  | .archive a shared =>
    if name.frozen then some (⟨a, some place, false, shared⟩, false)
    else if hasRoom place d && (shared == name.shared || !shared && mayChange name place d) then
      some (⟨a, some place, mayChange name place d, name.shared⟩, false)
    else none
  | .foreign _ => none

/-- The disk while an archive is open. Nothing of other runs is left beside it, and it has an empty
log if runs may share it; for a new archive the log is no text. -/
def beside (name : ArchiveName) (place : Place) (o : OpenArchive) (isNew : Bool) (d : Disk) :
    Disk :=
  let log := place.beside logSuffix
  let cleared := ((d.erase (place.beside journalSuffix)).erase log).erase (place.beside indexSuffix)
  if name.frozen then d
  else if !o.writable then if (d.get? log).isSome then d else d.write log (.text "")
  else if isNew || !o.shared then cleared
  else cleared.write log (.text "")

/-- Opens the archive of a name, a new one where nothing is there. What a failed attempt did to the
disk stays. -/
def ofName (workingFolder given : String) : ExceptT OpenError (StateM Disk) OpenArchive := do
  let (made, d) := (← get).makeFoldersFor given
  set d
  if let .error e := made then throw (.folder e)
  let some name := ArchiveName.parse? given | throw (.unopened given)
  match name.path with
  | none =>
    if name.access == .read then throw (.unopened given)
    return ⟨.empty, none, true, name.shared⟩
  | some path =>
    let some place := place? workingFolder path d | throw (.unopened given)
    if name.access == .create && (d.get? place).isNone then set (d.write place (.text ""))
    let d ← get
    let some (o, isNew) := (d.get? place).bind (ofContent? name place d) | throw (.unopened given)
    set (o.beside name place isNew (d.write place (.archive o.archive o.shared)))
    return o

/-- Keeps an open archive where it belongs, and clears away what lay beside it. -/
def close (o : OpenArchive) (d : Disk) : Disk :=
  match o.place with
  | some place =>
    if o.writable then
      (d.write place (.archive o.archive o.shared)).erase (place.beside logSuffix)
    else d
  | none => d

end OpenArchive

end ReleaseCatalog.CommandLine

import ReleaseCatalog.Archive.Basic
import ReleaseCatalog.CommandLine.Place

namespace ReleaseCatalog.CommandLine

/-- What a file holds. -/
inductive Content where
  | text (s : String)
  /-- An archive, and whether several runs may have it open at once. -/
  | archive (a : Archive) (shared : Bool)
  /-- What can never be an archive, with the text that it reads as, if any. -/
  | foreign (s : Option String)

namespace Content

def ofText (s : String) : Content :=
  (Archive.parse? s).elim (text s) fun (a, shared) => archive a shared

def toText : Content → String
  | text s => s
  | archive a shared => a.print shared
  | foreign s => s.getD ""

end Content

structure Disk where
  files : List (Place × Content)
  /-- Folders, besides those that the files and other folders lie in. -/
  folders : List Place

/-- Why a path leads nowhere, or why no folder can be made there. -/
inductive PathError where
  | missing
  /-- A file is on the way. -/
  | notFolder
  /-- There is a file of the name. -/
  | isFile
  | overlong
deriving DecidableEq, Repr

def PathError.message : PathError → String
  | .missing => "No such file or directory (os error 2)"
  | .notFolder => "Not a directory (os error 20)"
  | .isFile => "File exists (os error 17)"
  | .overlong => "File name too long (os error 36)"

namespace Disk

def get? (d : Disk) (p : Place) : Option Content := d.files.lookup p

def text? (d : Disk) (p : Place) : Option String :=
  match d.get? p with
  | some (.text s) => some s
  | some (.foreign s) => s
  | some (.archive _ _) | none => none

def erase (d : Disk) (p : Place) : Disk := { d with files := d.files.filter (·.1 != p) }

def write (d : Disk) (p : Place) (c : Content) : Disk :=
  { d with files := (p, c) :: (d.erase p).files }

/-- Whether there is a folder at a place: the root, the working folder and those around it, or one
that was made, or that something lies in. -/
def isFolder (d : Disk) (p : Place) : Bool :=
  p.all (· == "..") || p == ["/"] || d.folders.any p.isPrefixOf ||
    d.files.any fun (q, _) => p.isPrefixOf q && p.length < q.length

def contains (d : Disk) (p : Place) : Bool := (d.get? p).isSome || d.isFolder p

/-- Goes on from a place by one name of a path. Only from a folder is there a way on. -/
def step (d : Disk) (p : Place) (name : String) : Except PathError Place :=
  if d.isFolder p then if isOverlong name then .error .overlong else .ok (p.step name)
  else if (d.get? p).isSome then .error .notFolder
  else .error .missing

/-- The place that a path leads to. Nothing need be there, but there is a way to it. -/
def follow (d : Disk) (path : String) : Except PathError Place :=
  if pathLimit < path.utf8ByteSize then .error .overlong
  else (Place.namesOf path).foldlM d.step (Place.start path)

def textAt? (d : Disk) (path : String) : Option String := (d.follow path).toOption.bind d.text?

def containsAt (d : Disk) (path : String) : Bool := (d.follow path).toOption.any d.contains

/-- The disk with a folder, where `outer` are the names on the way to it. -/
def makeFolder (d : Disk) (start : Place) (outer : List String) (name : String) :
    Except PathError Disk := do
  let p ← d.step (← outer.foldlM d.step start) name
  if d.isFolder p then return d
  if (d.get? p).isSome then throw .isFile
  return { d with folders := p :: d.folders }

/-- Makes a folder and those missing on the way to it; the names are those of the way back. What
was made before a failure stays. -/
def makeFolders (d : Disk) (start : Place) : List String → Except PathError Unit × Disk
  | [] => (.ok (), d)
  | name :: outer =>
    match d.makeFolder start outer.reverse name with
    | .ok d => (.ok (), d)
    | .error .missing =>
      match d.makeFolders start outer with
      | (.ok (), d) =>
        match d.makeFolder start outer.reverse name with
        | .ok d => (.ok (), d)
        | .error e => (.error e, d)
      | failed => failed
    | .error e => (.error e, d)

/-- Makes the folders that a path to a file goes through. -/
def makeFoldersFor (d : Disk) (path : String) : Except PathError Unit × Disk :=
  let names := Place.foldersOf path
  if pathLimit < ("/".intercalate names).utf8ByteSize then (.error .overlong, d)
  else d.makeFolders (Place.start path) names.reverse

end Disk

end ReleaseCatalog.CommandLine

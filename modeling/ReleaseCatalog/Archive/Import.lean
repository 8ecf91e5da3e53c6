import ReleaseCatalog.Archive.Basic

namespace ReleaseCatalog

/-- When the documents of each line are filed: an import asks for the time once for every line. -/
def Clock : Type := UInt32 → Instant

/-- A moment is the clock that shows nothing else. -/
instance : Coe Instant Clock := ⟨fun t _ => t⟩

/-- What an import did. -/
structure ImportReport where
  upserted : Nat := 0
  unchanged : Nat := 0
  removed : Nat := 0
deriving DecidableEq, Repr

namespace Archive

def linesOf (rs : List Release) : List UInt32 := ascending (rs.map (·.featureVersion))

/-- The catalog of a feature version, empty where nothing is filed under it. -/
def readOrEmpty (a : Archive) (featureVersion : UInt32) : Except ReadError Catalog :=
  match a.read featureVersion with
  | .error (.notFound _) => .ok .empty
  | answer => answer

def eraseAll (a : Archive) (ids : List String) : Archive := ids.foldl erase a

/-- Imports the releases of one line: those that are new or newer are filed, and with `prune` the
documents of the line that the releases lack are erased. -/
def importLine (now : Instant) (prune : Bool) (featureVersion : UInt32) (incoming : List Release)
    (a : Archive) : Except ReadError (ImportReport × Archive) := do
  let d := (← a.readOrEmpty featureVersion).difference incoming
  let upserted := a.upsert now d.upserts
  let removals := if prune then d.removals.filter upserted.contains else []
  return (
    { upserted := d.upserts.length
      unchanged := incoming.length - d.upserts.length
      removed := removals.length },
    upserted.eraseAll removals)

/-- Imports releases line by line. The archive that comes back holds what was done before a line
that could not be read, also where the answer is an error. -/
def importLines (clock : Clock) (prune : Bool) (rs : List Release) (report : ImportReport)
    (a : Archive) : List UInt32 → Except ReadError ImportReport × Archive
  | [] => (.ok report, a)
  | f :: fs =>
    match importLine (clock f) prune f (rs.filter (·.featureVersion == f)) a with
    | .ok (r, a) =>
      importLines clock prune rs
        { upserted := report.upserted + r.upserted
          unchanged := report.unchanged + r.unchanged
          removed := report.removed + r.removed } a fs
    | .error e => (.error e, a)

def importAll (a : Archive) (clock : Clock) (prune : Bool) (rs : List Release) :
    Except ReadError ImportReport × Archive :=
  importLines clock prune rs {} a (linesOf rs)

end Archive

end ReleaseCatalog

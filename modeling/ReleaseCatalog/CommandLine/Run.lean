import ReleaseCatalog.Archive.Import
import ReleaseCatalog.Catalog.Query
import ReleaseCatalog.CommandLine.Help
import ReleaseCatalog.CommandLine.OpenArchive
import ReleaseCatalog.Refresh.Loop
import ReleaseCatalog.Release.Feed
import ReleaseCatalog.Settings
import ReleaseCatalog.Version.RangeCache

namespace ReleaseCatalog.CommandLine

/-- Why a command could not be carried out. -/
inductive Failure where
  | settingsUnreadable (path : String)
  | settingsInvalid (path : String)
  /-- There is no place for the log. -/
  | log
  | opening (cause : OpenError)
  | feedUnreadable (path : String)
  | feed (cause : FeedError)
  | archive (cause : ReadError)
  | snapshot (cause : RefreshError)
  | range (cause : RangeError)
deriving DecidableEq, Repr

def Failure.message : Failure → String
  | .settingsUnreadable path => "failed to read config " ++ path
  | .settingsInvalid path => "invalid config " ++ path
  | .log => "failed to initialize logging"
  | .opening cause => cause.message
  | .feedUnreadable path => "failed to read " ++ path
  | .feed cause => cause.message
  | .archive cause => cause.message
  | .snapshot cause => cause.message
  | .range cause => cause.message

/-- What a run shows. -/
inductive Outcome where
  | done (lines : List String)
  | failed (cause : Failure)
  /-- The arguments make no request. -/
  | misused
  /-- The log cannot be written. -/
  | broken
deriving DecidableEq, Repr

namespace Outcome

def exitCode : Outcome → UInt8
  | done _ => 0
  | failed _ => 1
  | misused => 2
  | broken => 101

def lines : Outcome → List String
  | done lines => lines
  | failed _ | misused | broken => []

def ofExcept : Except Failure (List String) → Outcome
  | .ok lines => done lines
  | .error cause => failed cause

end Outcome

/-- Where a run takes place. -/
structure Setting where
  environment : Environment
  /-- The path of the working folder, from the root. -/
  folder : String
  clock : Clock

/-- The settings of a run: those of the file that is named, or else those of the file in the data
folder if there is one, or else the standard ones. -/
def loadSettings (s : Setting) (named : Option String) (d : Disk) : Except Failure Settings :=
  let path := named.getD s.environment.settingsPath
  if named.isNone && !d.containsAt path then .ok {}
  else
    match d.textAt? path with
    | none => .error (.settingsUnreadable path)
    | some file => (Settings.parse? file).elim (.error (.settingsInvalid path)) .ok

def logPlace (s : Setting) : Place := .ofPath s.environment.logPath

/-- Makes the data folder, and a log in it unless something is there. -/
def startLog (s : Setting) (d : Disk) : Except PathError Unit × Disk :=
  match d.makeFoldersFor s.environment.logPath with
  | (.ok (), d) => (.ok (), if d.contains (logPlace s) then d else d.write (logPlace s) (.text ""))
  | failed => failed

def importLine (report : ImportReport) (lastImport : Option Instant) : String :=
  (Json.record
    [("last_imported_at", lastImport.elim .null Instant.toJson),
      ("removed", .nat report.removed), ("unchanged", .nat report.unchanged),
      ("upserted", .nat report.upserted)]).print

/-- Loads a feed into an open archive. An archive that may not be changed takes only a feed that
brings nothing new. -/
def load (clock : Clock) (file : String) (prune : Bool) (d : Disk) (o : OpenArchive) :
    Except Failure (List String) × OpenArchive :=
  match d.textAt? file with
  | none => (.error (.feedUnreadable file), o)
  | some text =>
    match Feed.parse text with
    | .error e => (.error (.feed e), o)
    | .ok rs =>
      match o.archive.importAll clock prune rs with
      | (.error e, a) => (.error (.archive e), if o.writable then { o with archive := a } else o)
      | (.ok report, a) =>
        if o.writable then (.ok [importLine report a.lastImport?], { o with archive := a })
        else if report.upserted + report.removed = 0 then
          (.ok [importLine report o.archive.lastImport?], o)
        else (.error (.archive .database), o)

def readSnapshot (settings : Settings) (a : Archive) : Except Failure Snapshot :=
  (Snapshot.read a.source settings.featureVersions).mapError .snapshot

def Query.criteria (q : Query) (settings : Settings) : Except RangeError ReleaseCriteria := do
  let ranges : RangeCache := .empty RangeCache.defaultCapacity
  return {
    kind := q.kind
    featureVersion := q.featureVersion
    name := q.name
    vendor := q.vendor
    lts := q.lts
    ltsVersions := settings.ltsVersions
    range := ← q.range.mapM fun spec => (ranges.lookup spec).1.map (·.range) }

def Query.results (q : Query) (criteria : ReleaseCriteria) (s : Snapshot) : List Release :=
  ReleaseCatalog.page q.page q.pageSize (s.query criteria q.binary q.direction q.method)

/-- The lines that a command other than an import shows. -/
def answer (settings : Settings) (a : Archive) : Command → Except Failure (List String)
  | .query q => do
    let s ← readSnapshot settings a
    let criteria ← (q.criteria settings).mapError .range
    return (q.results criteria s).map Release.print
  | .available => do
    let s ← readSnapshot settings a
    return [(s.availability settings.ltsVersions).toJson.print]
  | .latest featureVersion binary => do
    let s ← readSnapshot settings a
    return (s.latest featureVersion binary).map (·.toJson.print)
  | .load _ _ | .watch => return []

def perform (clock : Clock) (settings : Settings) (d : Disk) (o : OpenArchive) :
    Command → Except Failure (List String) × OpenArchive
  | .load file prune => load clock file prune d o
  | command => (answer settings o.archive command, o)

def onArchive (s : Setting) (settings : Settings) (name : String) (c : Command) (d : Disk) :
    Outcome × Disk :=
  match (OpenArchive.ofName s.folder name).run d with
  | (.error e, d) => (.failed (.opening e), d)
  | (.ok o, d) =>
    let (answer, o) := perform s.clock settings d o c
    (.ofExcept answer, o.close d)

/-- Runs a command. Its settings are read before anything is written. -/
def invoke (s : Setting) (i : Invocation) (d : Disk) : Outcome × Disk :=
  match loadSettings s i.places.settings d with
  | .error e => (.failed e, d)
  | .ok settings =>
    match startLog s d with
    | (.error _, d) => (.failed .log, d)
    | (.ok (), d) =>
      if d.isFolder (logPlace s) then (.broken, d)
      else onArchive s settings (i.places.archive.getD s.environment.databasePath) i.command d

def run (s : Setting) (args : List String) (d : Disk) : Outcome × Disk :=
  match request args with
  | .run i => invoke s i d
  | .help command => (.done (help command), d)
  | .version => (.done [versionLine], d)
  | .invalid => (.misused, d)

end ReleaseCatalog.CommandLine

import Std.Time.DateTime
import ReleaseCatalog.CommandLine.Run

namespace ReleaseCatalog.CommandLine

/-- The present time, to the millisecond. -/
def presentTime : IO Instant := do
  let ms := (← Std.Time.Timestamp.now).toMillisecondsSinceUnixEpoch.val
  let day := Std.Time.PlainDate.ofEpochDay ⟨ms / 86400000⟩
  let rest := (ms % 86400000).toNat
  let time? := do
    let date ← Date.ofParts? day.year day.month.val.toNat day.day.val.toNat
    Instant.ofParts? date (rest / 1000) (rest % 1000 * 1000000)
  match time? with
  | some t => return t
  | none => throw (IO.userError "the clock is out of range")

def placesOf (e : Environment) (i : Invocation) : List Place :=
  let archive := i.places.archive.getD e.databasePath
  let file := match i.command with
    | .load file _ => [file]
    | _ => []
  let paths := [i.places.settings.getD e.settingsPath, e.logPath, archive] ++ file
  let kept := (ArchiveName.parse? archive).bind (·.path)
  paths.flatMap Place.along ++ kept.elim [] fun path =>
    Place.along path ++
      [journalSuffix, logSuffix, indexSuffix].map (Place.ofPath path).beside

def readPlace (d : Disk) (p : Place) : IO Disk := do
  match ← (IO.FS.readBinFile p.toPath).toBaseIO with
  | .ok bytes => return d.write p ((String.fromUTF8? bytes).elim (.foreign none) .ofText)
  | .error _ =>
    if ← ((← IO.currentDir) / p.toPath).isDir then return { d with folders := p :: d.folders }
    else return d

/-- The part of the disk that lies at some places. -/
def readDisk (places : List Place) : IO Disk := places.foldlM readPlace ⟨[], []⟩

def writeDisk (before after : Disk) : IO Unit := do
  for p in after.folders.reverse do
    unless before.isFolder p do IO.FS.createDirAll p.toPath
  for (p, _) in before.files do
    unless (after.get? p).isSome do IO.FS.removeFile p.toPath
  for (p, content) in after.files do
    match content, before.get? p with
    | .text _, some _ | .foreign _, _ => pure ()
    | content, _ => IO.FS.writeFile p.toPath content.toText

/-- Refreshes a snapshot from the archive of a run until the program is stopped. -/
partial def watch (s : Setting) (i : Invocation) (settings : Settings) (b : Board) : IO Unit := do
  let d ← readDisk (placesOf s.environment i)
  let name := i.places.archive.getD s.environment.databasePath
  let source := match (OpenArchive.ofName s.folder name).run d with
    | (.ok o, _) => o.archive.source
    | (.error _, _) => fun _ => .error .database
  let (_, b) := b.refresh (.inOrder (fun _ => source) settings.featureVersions)
  IO.sleep (max 1 settings.refresh.intervalMs).toUInt32
  watch s i settings b

end ReleaseCatalog.CommandLine

open ReleaseCatalog ReleaseCatalog.CommandLine in
def main (args : List String) : IO UInt32 := do
  let environment : Environment :=
    { dataHome := ← IO.getEnv "XDG_DATA_HOME", home := ← IO.getEnv "HOME" }
  let setting : Setting := ⟨environment, (← IO.currentDir).toString, ← presentTime⟩
  let before ← match request args with
    | .run i => readDisk (placesOf environment i)
    | _ => pure ⟨[], []⟩
  let (outcome, after) := run setting args before
  writeDisk before after
  for line in outcome.lines do IO.println line
  match outcome, request args with
  | .failed cause, _ => IO.eprintln ("Error: " ++ cause.message)
  | .misused, _ => for line in help none do IO.eprintln line
  | .done _, .run i =>
    match i.command, loadSettings setting i.places.settings after with
    | .watch, .ok settings => watch setting i settings .initial
    | _, _ => pure ()
  | .broken, _ | .done _, _ => pure ()
  return outcome.exitCode.toUInt32

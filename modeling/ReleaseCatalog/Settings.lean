import ReleaseCatalog.Json.Reader
import ReleaseCatalog.Json.Record

namespace ReleaseCatalog

/-- When the snapshot is read anew. -/
structure RefreshSettings where
  intervalMs : UInt64 := 900000
  /-- How long each read of a cycle starts after the one before it. -/
  staggerDelayMs : UInt64 := 10
deriving DecidableEq, Repr

structure Settings where
  refresh : RefreshSettings := {}
  /-- The feature versions that every cycle reads. -/
  featureVersions : List UInt32 := [8, 9, 10, 11, 12, 13, 14, 15, 16, 17, 18, 19, 20, 21, 22, 23, 24, 25]
  /-- The feature versions with long-term support. -/
  ltsVersions : List UInt32 := [8, 11, 17, 21, 25]
deriving DecidableEq, Repr

open Json (defaulted word32? word64? list?)

def RefreshSettings.ofJson? (x : Json) : Option RefreshSettings := do
  let [interval, delay] ← x.fields? ["intervalMs", "staggerDelayMs"] | none
  let standard : RefreshSettings := {}
  return {
    intervalMs := ← defaulted standard.intervalMs word64? interval
    staggerDelayMs := ← defaulted standard.staggerDelayMs word64? delay }

namespace Settings

def ofJson? (x : Json) : Option Settings := do
  let [refresh, featureVersions, ltsVersions] ←
    x.fields? ["refresh", "featureVersions", "ltsVersions"] | none
  let standard : Settings := {}
  return {
    refresh := ← defaulted standard.refresh RefreshSettings.ofJson? refresh
    featureVersions := ← defaulted standard.featureVersions (list? word32?) featureVersions
    ltsVersions := ← defaulted standard.ltsVersions (list? word32?) ltsVersions }

def parse? (s : String) : Option Settings := (Json.parse? s).bind ofJson?

end Settings

/-- What says where files are kept: two variables, and the home folder of the account. -/
structure Environment where
  dataHome : Option String
  home : Option String
  accountHome : Option String := none

namespace Environment

/-- A path below a folder, with one slash between them. -/
def join (folder path : String) : String :=
  if folder.isEmpty || folder.toList.getLast? == some '/' then folder ++ path
  else folder ++ "/" ++ path

/-- The home folder. That of the account counts where the variable names none. -/
def homeFolder (e : Environment) : Option String :=
  e.home.filter (fun home => !home.isEmpty) <|> e.accountHome

def dataFolder (e : Environment) : String :=
  join (e.dataHome.getD (e.homeFolder.elim "." (join · ".local/share"))) "release-index"

def databasePath (e : Environment) : String := join e.dataFolder "releases.db"

def logPath (e : Environment) : String := join e.dataFolder "release-index.log"

def settingsPath (e : Environment) : String := join e.dataFolder "config.json"

end Environment

end ReleaseCatalog

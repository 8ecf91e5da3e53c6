import ReleaseCatalog.Archive.Table
import ReleaseCatalog.Proofs.Archive.Import

namespace ReleaseCatalog

namespace Database

/-- What is stored before a database is first opened. -/
inductive Start where
  | nothing
  /-- A table from before the first migration, possibly with the column that it adds. -/
  | legacy (withColumn : Bool) (rs : List Release)

/-- What can be done with an open database. -/
inductive Action where
  | upsert (now : Instant) (rs : List Release)
  | remove (id : String)
  | importAll (clock : Clock) (prune : Bool) (rs : List Release)
  | reopen

def Start.stored? : Start → Option Table
  | .nothing => none
  | .legacy withColumn rs => some (.legacy withColumn rs)

/-- The database after an action, whatever the action answers. -/
def Action.apply : Action → Database → Database
  | .upsert now rs, d => (d.upsert now rs).2
  | .remove id, d => (d.remove id).2
  | .importAll clock prune rs, d => (d.importAll clock prune rs).2
  | .reopen, d => d.reopen

def after (start : Start) (actions : List Action) : Database :=
  actions.foldl (fun d x => x.apply d) (ofStored start.stored?)

def Start.holdings : Start → Holdings
  | .nothing => .empty
  | .legacy _ rs => Holdings.empty.fileAll false rs

def Action.applyTo : Action → Holdings → Holdings
  | .upsert _ rs, h => h.fileAll true rs
  | .remove id, h => h.erase id
  | .importAll _ prune rs, h => h.importAll prune rs
  | .reopen, h => h

def holdingsAfter (start : Start) (actions : List Action) : Holdings :=
  actions.foldl (fun h x => x.applyTo h) start.holdings

/-- The rows are sound and are what the map says. -/
def Represents (d : Database) (h : Holdings) : Prop :=
  d.archive.IsSound ∧ d.archive.holdings = h

theorem represents_ofStored (start : Start) : Represents (ofStored start.stored?) start.holdings := by
  cases start with
  | nothing => exact ⟨archive_ofStored _ ▸ Archive.isSound_empty, by rw [archive_ofStored]; rfl⟩
  | legacy withColumn rs =>
    rw [Represents, archive_ofStored]
    exact ⟨Archive.isSound_empty.fileAll none rs, Archive.holdings_fileAll .empty none rs⟩

theorem Represents.apply {d : Database} {h : Holdings} (hd : Represents d h) (x : Action) :
    Represents (x.apply d) (x.applyTo h) := by
  obtain ⟨hsound, rfl⟩ := hd
  cases x with
  | upsert now rs => exact ⟨hsound.upsert now rs, d.archive.holdings_upsert now rs⟩
  | remove id => exact ⟨hsound.erase id, d.archive.holdings_erase id⟩
  | importAll clock prune rs =>
    obtain ⟨report, b, hb, hsound', hholdings⟩ := hsound.exists_importAll clock prune rs
    rw [Action.apply, importAll, hb]
    exact ⟨hsound', hholdings⟩
  | reopen =>
    rw [Action.apply, reopen_eq]
    exact ⟨hsound, rfl⟩

theorem represents_after (start : Start) (actions : List Action) :
    Represents (after start actions) (holdingsAfter start actions) := by
  have hrun (d : Database) (h : Holdings) (hd : Represents d h) :
      Represents (actions.foldl (fun d x => x.apply d) d)
        (actions.foldl (fun h x => x.applyTo h) h) := by
    induction actions generalizing d h with
    | nil => exact hd
    | cons x xs ih => exact ih _ _ (hd.apply x)
  exact hrun _ _ (represents_ofStored start)

end Database

end ReleaseCatalog

import ReleaseCatalog.Archive.Import

namespace ReleaseCatalog

inductive Column where
  | id | featureVersion | document | importedAt
deriving DecidableEq, Repr

namespace Column

/-- The columns that a table is created with. -/
def original : List Column := [.id, .featureVersion, .document]

/-- The columns that the migrations add, one migration after another. -/
def migrations : List (List Column) := [[.importedAt]]

end Column

/-- A table. Rows have no import time where there is no column for it. -/
structure Table where
  /-- How many migrations the table has been through. -/
  schemaVersion : Nat
  columns : List Column
  archive : Archive
  isMigrated : ∀ c ∈ (Column.migrations.take schemaVersion).flatten, c ∈ columns
  isUnstamped : .importedAt ∉ columns → ∀ e ∈ archive.entries, e.importedAt = none

namespace Table

def created : Table where
  schemaVersion := 0
  columns := Column.original
  archive := .empty
  isMigrated _ h := absurd h List.not_mem_nil
  isUnstamped _ _ h := absurd h List.not_mem_nil

theorem importedAt_of_mem_fileAll {rs : List Release} {a : Archive}
    (ha : ∀ e ∈ a.entries, e.importedAt = none) :
    ∀ e ∈ (a.fileAll none rs).entries, e.importedAt = none := by
  induction rs generalizing a with
  | nil => exact ha
  | cons r rs ih =>
    apply ih
    intro e he
    rcases Archive.mem_file.1 he with rfl | ⟨he, -⟩
    · rfl
    · exact ha e he

/-- A table from before the first migration that holds some releases. The column for import times
may be there all the same. -/
def legacy (withColumn : Bool) (rs : List Release) : Table where
  schemaVersion := 0
  columns := Column.original ++ if withColumn then [.importedAt] else []
  archive := Archive.empty.fileAll none rs
  isMigrated _ h := absurd h List.not_mem_nil
  isUnstamped _ := importedAt_of_mem_fileAll fun _ h => absurd h List.not_mem_nil

/-- The table with a further column, unless it has the column already. -/
def addColumn? (t : Table) (c : Column) : Option Table :=
  if c ∈ t.columns then none
  else
    some { t with
      columns := t.columns ++ [c]
      isMigrated := fun d h => List.mem_append_left _ (t.isMigrated d h)
      isUnstamped := fun h => t.isUnstamped fun hc => h (List.mem_append_left _ hc) }

/-- Adds columns in turn. Those that are there already are passed over. -/
def addColumns (t : Table) (cs : List Column) : Table :=
  cs.foldl (fun t c => (t.addColumn? c).getD t) t

theorem addColumns_spec (t : Table) (cs : List Column) :
    (t.addColumns cs).schemaVersion = t.schemaVersion ∧
      (t.addColumns cs).archive = t.archive ∧
      ∀ c, c ∈ (t.addColumns cs).columns ↔ c ∈ t.columns ∨ c ∈ cs := by
  induction cs generalizing t with
  | nil => simp [addColumns]
  | cons d cs ih =>
    obtain ⟨hversion, harchive, hcolumns⟩ := ih ((t.addColumn? d).getD t)
    rw [addColumns, List.foldl_cons]
    by_cases hd : d ∈ t.columns
    · have hadd : (t.addColumn? d).getD t = t := by rw [addColumn?, if_pos hd]; rfl
      rw [hadd] at hversion harchive hcolumns ⊢
      refine ⟨hversion, harchive, fun c => (hcolumns c).trans ?_⟩
      rw [List.mem_cons]
      constructor
      · rintro (h | h)
        · exact .inl h
        · exact .inr (.inr h)
      · rintro (h | rfl | h)
        · exact .inl h
        · exact .inl hd
        · exact .inr h
    · rw [addColumn?, if_neg hd] at hversion harchive hcolumns ⊢
      refine ⟨hversion, harchive, fun c => (hcolumns c).trans ?_⟩
      simp [or_assoc]

/-- The table after the migrations that it has not been through. -/
def migrate (t : Table) : Table :=
  { t.addColumns (Column.migrations.drop t.schemaVersion).flatten with
    schemaVersion := max t.schemaVersion Column.migrations.length
    isMigrated := by
      intro c h
      obtain ⟨-, -, hcolumns⟩ :=
        t.addColumns_spec (Column.migrations.drop t.schemaVersion).flatten
      rw [List.take_of_length_le (Nat.le_max_right ..),
        ← List.take_append_drop t.schemaVersion Column.migrations, List.flatten_append,
        List.mem_append] at h
      rw [hcolumns]
      exact h.imp_left (t.isMigrated c) }

@[simp] theorem archive_migrate (t : Table) : t.migrate.archive = t.archive :=
  (t.addColumns_spec _).2.1

/-- A table that has been through all migrations stays as it is. -/
theorem migrate_of_current {t : Table} (h : Column.migrations.length ≤ t.schemaVersion) :
    t.migrate = t := by
  have hpending : t.addColumns (Column.migrations.drop t.schemaVersion).flatten = t := by
    rw [List.drop_of_length_le h]
    rfl
  have hversion : max t.schemaVersion Column.migrations.length = t.schemaVersion :=
    Nat.max_eq_left h
  simp only [migrate, hpending, hversion]

end Table

/-- An open table, which has been through all migrations. -/
structure Database extends Table where
  isCurrent : Column.migrations.length ≤ schemaVersion

namespace Database

/-- Opens what is stored, a new table where there is none. -/
def ofStored (stored : Option Table) : Database :=
  ⟨(stored.getD .created).migrate, Nat.le_max_right ..⟩

def reopen (d : Database) : Database := ofStored (some d.toTable)

theorem importedAt_mem_columns (d : Database) : .importedAt ∈ d.columns := by
  apply d.isMigrated
  rw [List.take_of_length_le d.isCurrent]
  decide

def withRows (d : Database) (a : Archive) : Database :=
  { d with archive := a, isUnstamped := fun h => absurd d.importedAt_mem_columns h }

def upsert (d : Database) (now : Instant) (rs : List Release) : Nat × Database :=
  (rs.length, d.withRows (d.archive.upsert now rs))

def remove (d : Database) (id : String) : Bool × Database :=
  (d.archive.contains id, d.withRows (d.archive.erase id))

def read (d : Database) (featureVersion : UInt32) : Except ReadError Catalog :=
  d.archive.read featureVersion

def importAll (d : Database) (clock : Clock) (prune : Bool) (rs : List Release) :
    Except ReadError ImportReport × Database :=
  let (answer, a) := d.archive.importAll clock prune rs
  (answer, d.withRows a)

@[simp] theorem archive_ofStored (stored : Option Table) :
    (ofStored stored).archive = (stored.getD .created).archive :=
  Table.archive_migrate _

@[simp] theorem reopen_eq (d : Database) : d.reopen = d := by
  simp only [reopen, ofStored, Option.getD_some, Table.migrate_of_current d.isCurrent]

end Database

end ReleaseCatalog

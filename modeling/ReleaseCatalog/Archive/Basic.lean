import ReleaseCatalog.Catalog.Snapshot
import ReleaseCatalog.Release.Document

namespace ReleaseCatalog

/-- Why the releases of a feature version could not be had. -/
inductive ReadError where
  /-- No document is filed under the feature version. -/
  | notFound (featureVersion : UInt32)
  /-- A document is not of the right form. -/
  | document
  /-- The archive itself fails. -/
  | database
  /-- Whoever used the archive last broke off midway. -/
  | lockPoisoned
deriving DecidableEq, Repr

def ReadError.message : ReadError → String
  | .notFound featureVersion => "Feature version not found: " ++ toString featureVersion.toNat
  | .document => "Invalid release document"
  | .database => "Database error"
  | .lockPoisoned => "Database lock poisoned"

/-- A document and how it is filed. It is kept as text, and read only when it is asked for. -/
structure Entry where
  id : String
  featureVersion : UInt32
  document : String
  /-- When the document was written, if that is known. -/
  importedAt : Option Instant
deriving DecidableEq, Repr

structure Archive where
  /-- The entries, in the order in which their ids were first filed. -/
  entries : List Entry
  ids_nodup : (entries.map (·.id)).Nodup
deriving DecidableEq

namespace Archive

def empty : Archive := ⟨[], List.nodup_nil⟩

/-- The archive with an entry in the place of any other of its id. -/
def file (a : Archive) (e : Entry) : Archive :=
  if h : e.id ∈ a.entries.map (·.id) then
    { entries := a.entries.map fun x => if x.id = e.id then e else x
      ids_nodup := by
        have same : (a.entries.map fun x => if x.id = e.id then e else x).map (·.id) =
            a.entries.map (·.id) := by
          rw [List.map_map]
          refine List.map_congr_left fun x _ => ?_
          simp only [Function.comp_apply]
          split
          · next he => exact he.symm
          · rfl
        rw [same]
        exact a.ids_nodup }
  else
    { entries := a.entries ++ [e]
      ids_nodup := by
        rw [List.map_append, List.nodup_append]
        refine ⟨a.ids_nodup, by simp, ?_⟩
        rintro x hx y hy rfl
        simp only [List.map_cons, List.map_nil, List.mem_singleton] at hy
        exact h (hy ▸ hx) }

def erase (a : Archive) (id : String) : Archive where
  entries := a.entries.filter (·.id != id)
  ids_nodup := a.ids_nodup.sublist (List.filter_sublist.map _)

def contains (a : Archive) (id : String) : Bool := a.entries.any (·.id == id)

theorem mem_file {a : Archive} {e x : Entry} :
    x ∈ (a.file e).entries ↔ x = e ∨ (x ∈ a.entries ∧ x.id ≠ e.id) := by
  by_cases h : e.id ∈ a.entries.map (·.id)
  · simp only [file, h, dite_true, List.mem_map]
    constructor
    · rintro ⟨y, hy, rfl⟩
      split
      · exact .inl rfl
      · next hid => exact .inr ⟨hy, hid⟩
    · rintro (rfl | ⟨hx, hid⟩)
      · obtain ⟨y, hy, hid⟩ := List.mem_map.1 h
        exact ⟨y, hy, if_pos hid⟩
      · exact ⟨x, hx, if_neg hid⟩
  · simp only [file, h, dite_false, List.mem_append, List.mem_singleton]
    constructor
    · rintro (hx | rfl)
      · exact .inr ⟨hx, fun hid => h (hid ▸ List.mem_map_of_mem hx)⟩
      · exact .inl rfl
    · rintro (rfl | ⟨hx, -⟩)
      · exact .inr rfl
      · exact .inl hx

theorem mem_erase {a : Archive} {id : String} {e : Entry} :
    e ∈ (a.erase id).entries ↔ e ∈ a.entries ∧ e.id ≠ id := by
  simp [erase]

/-- The entry of a release, filed under its major version. -/
def entryOf (importedAt : Option Instant) (r : Release) : Entry :=
  ⟨r.id, r.featureVersion, r.print, importedAt⟩

/-- The archive with the documents of some releases, filed in turn. -/
def fileAll (a : Archive) (importedAt : Option Instant) (rs : List Release) : Archive :=
  rs.foldl (fun a r => a.file (entryOf importedAt r)) a

def upsert (a : Archive) (now : Instant) (rs : List Release) : Archive := a.fileAll (some now) rs

def documents (a : Archive) (featureVersion : UInt32) : List String :=
  (a.entries.filter (·.featureVersion == featureVersion)).map (·.document)

def read (a : Archive) (featureVersion : UInt32) : Except ReadError Catalog :=
  match a.documents featureVersion with
  | [] => .error (.notFound featureVersion)
  | documents =>
    match documents.mapM Release.parse? with
    | some rs => .ok (.ofReleases rs)
    | none => .error .document

/-- Feature versions in their order, each once. -/
def ascending (fs : List UInt32) : List UInt32 := (fs.mergeSort (· ≤ ·)).eraseDups

def featureVersions (a : Archive) : List UInt32 := ascending (a.entries.map (·.featureVersion))

def later (t : Option Instant) (u : Instant) : Option Instant :=
  match t with
  | some t => if t.isBefore u then some u else some t
  | none => some u

/-- When a document of the archive was last written, if that is known of any. -/
def lastImport? (a : Archive) : Option Instant :=
  (a.entries.filterMap (·.importedAt)).foldl later none

end Archive

open Json (record nat text required optional text? truth? word32? list?)

namespace Entry

def toJson (e : Entry) : Json :=
  record <|
    [("id", text e.id), ("feature_version", nat e.featureVersion.toNat),
      ("document", text e.document)] ++
    Json.ifPresent "imported_at" Instant.toJson e.importedAt

def ofJson? (x : Json) : Option Entry := do
  let [id, featureVersion, document, importedAt] ← x.fields?
    ["id", "feature_version", "document", "imported_at"] | none
  return {
    id := ← required text? id
    featureVersion := ← required word32? featureVersion
    document := ← required text? document
    importedAt := ← optional Instant.ofJson? importedAt }

end Entry

namespace Archive

def ofEntries (es : List Entry) : Archive := es.foldl file empty

/-- The archive as a text, which also tells whether several runs may have it open at once. -/
def print (a : Archive) (shared : Bool) : String :=
  (record [("archive", .array (a.entries.map Entry.toJson)), ("shared", .bool shared)]).print

def parse? (s : String) : Option (Archive × Bool) := do
  let [entries, shared] ← (← Json.parse? s).fields? ["archive", "shared"] | none
  return (ofEntries (← required (list? Entry.ofJson?) entries), ← required truth? shared)

end Archive

end ReleaseCatalog

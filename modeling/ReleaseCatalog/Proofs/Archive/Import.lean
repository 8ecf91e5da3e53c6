import ReleaseCatalog.Proofs.Archive.Rows
import ReleaseCatalog.Proofs.Catalog.Difference

namespace ReleaseCatalog

namespace Holdings

/-- Whether a release is new to its line, or newer than the copy there. -/
def isOutdatedFor (h : Holdings) (f : UInt32) (r : Release) : Bool :=
  (h.line f r.id).all fun s => s.updatedAt.isBefore r.updatedAt

/-- The map after an import of the releases of one line. -/
def importLine (h : Holdings) (prune : Bool) (f : UInt32) (incoming : List Release) : Holdings :=
  fun id =>
    if prune ∧ (h.line f id).isSome ∧ id ∉ incoming.map (·.id) then none
    else h.fileAll true (incoming.filter (h.isOutdatedFor f)) id

/-- The map after imports of the lines of some feature versions. -/
def importLines (h : Holdings) (prune : Bool) (rs : List Release) (fs : List UInt32) : Holdings :=
  fs.foldl (fun h f => h.importLine prune f (rs.filter (·.featureVersion == f))) h

/-- The map after an import, which takes the lines in ascending order. -/
def importAll (h : Holdings) (prune : Bool) (rs : List Release) : Holdings :=
  h.importLines prune rs (Archive.linesOf rs)

theorem fileAll_filter_of_not_mem {rs : List Release} {id : String} (h : id ∉ rs.map (·.id))
    (keep : Release → Bool) (imported : Bool) (held : Holdings) :
    held.fileAll imported (rs.filter keep) id = held id :=
  fileAll_of_not_mem (fun hm => h ((List.filter_sublist.map _).subset hm)) imported held

end Holdings

namespace Archive

theorem isOutdatedFor_eq {c : Catalog} {h : Holdings} {f : UInt32}
    (hc : ∀ id, c.get? id = h.line f id) : c.isOutdatedFor = h.isOutdatedFor f := by
  have hget : c.get? = h.line f := funext hc
  rw [c.isOutdatedFor_eq, hget]
  rfl

theorem IsSound.mem_removals {a : Archive} (h : a.IsSound) {c : Catalog} {f : UInt32}
    (hc : ∀ id, c.get? id = a.holdings.line f id) (now : Instant) (incoming : List Release)
    (id : String) :
    id ∈ (c.difference incoming).removals.filter
        (a.upsert now (c.difference incoming).upserts).contains ↔
      (a.holdings.line f id).isSome = true ∧ id ∉ incoming.map (·.id) := by
  have hsound := h.upsert now (c.difference incoming).upserts
  have hremovals : id ∈ (c.difference incoming).removals ↔
      (a.holdings.line f id).isSome = true ∧ id ∉ incoming.map (·.id) := by
    rw [Catalog.difference, List.mem_filter, Catalog.mem_ids, Catalog.contains_eq_isSome, hc]
    simp
  rw [List.mem_filter, hremovals, hsound.contains_eq_isSome, holdings_upsert]
  refine and_iff_left_of_imp ?_
  rintro ⟨hline, hid⟩
  obtain ⟨r, hr⟩ := Option.isSome_iff_exists.1 hline
  obtain ⟨b, hx, -⟩ := Holdings.line_eq_some.1 hr
  rw [Catalog.difference, Holdings.fileAll_filter_of_not_mem hid, hx]
  rfl

theorem IsSound.exists_importLine {a : Archive} (h : a.IsSound) (now : Instant) (prune : Bool)
    (f : UInt32) (incoming : List Release) :
    ∃ report b, importLine now prune f incoming a = .ok (report, b) ∧ b.IsSound ∧
      b.holdings = a.holdings.importLine prune f incoming := by
  obtain ⟨c, hc, hget⟩ := h.exists_readOrEmpty f
  have hsound := h.upsert now (c.difference incoming).upserts
  rw [importLine, hc]
  refine ⟨_, _, rfl, hsound.eraseAll _, ?_⟩
  funext id
  have hremovals := h.mem_removals hget now incoming id
  rw [holdings_eraseAll, holdings_upsert]
  simp only [Holdings.importLine, ← isOutdatedFor_eq hget]
  cases prune with
  | false =>
    rw [if_neg Bool.false_ne_true, if_neg List.not_mem_nil, if_neg fun hp => nomatch hp.1]
    rfl
  | true =>
    by_cases hid : (a.holdings.line f id).isSome = true ∧ id ∉ incoming.map (·.id)
    · rw [if_pos rfl, if_pos (hremovals.2 hid), if_pos ⟨rfl, hid⟩]
    · rw [if_pos rfl, if_neg fun hm => hid (hremovals.1 hm), if_neg fun hp => hid hp.2]
      rfl

theorem IsSound.exists_importLines {a : Archive} (h : a.IsSound) (clock : Clock) (prune : Bool)
    (rs : List Release) (report : ImportReport) (fs : List UInt32) :
    ∃ total b, importLines clock prune rs report a fs = (.ok total, b) ∧ b.IsSound ∧
      b.holdings = a.holdings.importLines prune rs fs := by
  induction fs generalizing a report with
  | nil => exact ⟨report, a, rfl, h, rfl⟩
  | cons f fs ih =>
    obtain ⟨r, b, hb, hsound, hholdings⟩ :=
      h.exists_importLine (clock f) prune f (rs.filter (·.featureVersion == f))
    rw [importLines, hb, Holdings.importLines, List.foldl_cons, ← hholdings]
    exact ih hsound _

/-- An import succeeds and acts on the rows as on the map. -/
theorem IsSound.exists_importAll {a : Archive} (h : a.IsSound) (clock : Clock) (prune : Bool)
    (rs : List Release) :
    ∃ report b, a.importAll clock prune rs = (.ok report, b) ∧ b.IsSound ∧
      b.holdings = a.holdings.importAll prune rs :=
  h.exists_importLines clock prune rs {} (linesOf rs)

end Archive

end ReleaseCatalog

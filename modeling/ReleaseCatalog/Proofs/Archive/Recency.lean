import ReleaseCatalog.Proofs.Archive.Convergence

namespace ReleaseCatalog

namespace Holdings

theorem filed?_of_nodup {h : Holdings} {f : UInt32} {rs : List Release}
    (hrs : (rs.map (·.id)).Nodup) {r : Release} (hr : r ∈ rs) :
    h.filed? f rs r.id = if h.isOutdatedFor f r then some r else none := by
  cases hfiled : h.filed? f rs r.id with
  | none =>
    rw [filed?_eq_none.1 hfiled r hr rfl]
    rfl
  | some s =>
    obtain ⟨hs, hid, hout⟩ := of_filed?_eq_some hfiled
    obtain rfl := List.inj_on_of_nodup_map hrs hs hr hid
    rw [if_pos hout]

end Holdings

namespace Archive

variable {a b : Archive} {clock : Clock} {prune : Bool} {rs : List Release}
  {report : ImportReport} {r : Release} {x : Holding}

theorem IsSound.row?_importAll_of_nodup (h : a.IsSound) (hrs : (rs.map (·.id)).Nodup)
    (hb : a.importAll clock prune rs = (.ok report, b)) (hr : r ∈ rs) :
    b.row? r.id =
      if a.holdings.isOutdatedFor r.featureVersion r then
        some (entryOf (some (clock r.featureVersion)) r)
      else a.row? r.id := by
  have hline : ∀ s ∈ rs, s.id = r.id → s.featureVersion = r.featureVersion :=
    fun s hs hid => congrArg _ (List.inj_on_of_nodup_map hrs hs hr hid)
  rw [h.row?_importLines_of_mem hb (nodup_linesOf rs) (mem_linesOf.2 ⟨r, hr, rfl⟩) hr hline,
    Holdings.filed?_of_nodup hrs hr]
  split
  · rfl
  · rfl

theorem IsSound.row?_importAll_of_line (h : a.IsSound) (hrs : (rs.map (·.id)).Nodup)
    (hb : a.importAll clock prune rs = (.ok report, b)) (hr : r ∈ rs)
    (hx : a.holdings r.id = some x) (hline : r.featureVersion = x.release.featureVersion)
    (hold : x.release.updatedAt.isBefore r.updatedAt = false) : b.row? r.id = a.row? r.id := by
  have hheld : a.holdings.line r.featureVersion r.id = some x.release :=
    Holdings.line_eq_some.2 ⟨x.imported, hx, hline.symm⟩
  have hcurrent := Holdings.isOutdatedFor_eq_false.2 ⟨_, hheld, hold⟩
  rw [h.row?_importAll_of_nodup hrs hb hr, if_neg (Bool.eq_false_iff.1 hcurrent)]

/-- A copy of another line is replaced, also where it is newer. -/
theorem IsSound.row?_importAll_of_other_line (h : a.IsSound) (hrs : (rs.map (·.id)).Nodup)
    (hb : a.importAll clock prune rs = (.ok report, b)) (hr : r ∈ rs)
    (hx : a.holdings r.id = some x) (hline : r.featureVersion ≠ x.release.featureVersion) :
    b.row? r.id = some (entryOf (some (clock r.featureVersion)) r) := by
  have hheld : a.holdings.line x.release.featureVersion r.id = some x.release :=
    Holdings.line_eq_some.2 ⟨x.imported, hx, rfl⟩
  rw [h.row?_importAll_of_nodup hrs hb hr, Holdings.isOutdatedFor,
    Holdings.line_eq_none_of_ne hheld hline]
  rfl

theorem IsSound.exists_of_row?_importAll_ne (h : a.IsSound) (hrs : (rs.map (·.id)).Nodup)
    (hb : a.importAll clock prune rs = (.ok report, b)) {id : String} {e e' : Entry}
    (he : a.row? id = some e) (he' : b.row? id = some e') (hne : e' ≠ e) :
    ∃ r ∈ rs, r.id = id ∧ e' = entryOf (some (clock r.featureVersion)) r ∧
      ∀ x, a.holdings id = some x → r.featureVersion = x.release.featureVersion →
        x.release.updatedAt.isBefore r.updatedAt = true := by
  by_cases hid : ∀ r ∈ rs, r.id ≠ id
  · rw [h.row?_importAll_of_absent hb hid] at he'
    split at he'
    · cases he'
    · exact absurd (Option.some.inj (he'.symm.trans he)) hne
  · simp only [not_forall, not_not] at hid
    obtain ⟨r, hr, rfl⟩ := hid
    have hrow := h.row?_importAll_of_nodup hrs hb hr
    rw [he'] at hrow
    split at hrow
    · refine ⟨r, hr, rfl, Option.some.inj hrow, fun x hx hline => ?_⟩
      rw [← Bool.not_eq_false]
      intro hold
      have hsame := h.row?_importAll_of_line hrs hb hr hx hline hold
      rw [he', he] at hsame
      exact hne (Option.some.inj hsame)
    · exact absurd (Option.some.inj (hrow.trans he)) hne

end Archive

namespace Database

/-- Of a list with distinct ids, a release that is not newer than the stored copy of its id leaves
the row as it is if that copy is of its line, and takes its place if not. Whatever takes the place
of a row is newer than the copy there or of another line. -/
theorem importAll_keeps_newer {rs : List Release} (hrs : (rs.map (·.id)).Nodup) (start : Start)
    (actions : List Action) (clock : Clock) (prune : Bool) :
    let d := after start actions
    let h := holdingsAfter start actions
    ∃ report b, d.importAll clock prune rs = (.ok report, b) ∧
      (∀ r ∈ rs, ∀ x, h r.id = some x → x.release.updatedAt.isBefore r.updatedAt = false →
        (r.featureVersion = x.release.featureVersion →
          b.archive.row? r.id = d.archive.row? r.id) ∧
        (r.featureVersion ≠ x.release.featureVersion →
          b.archive.row? r.id = some (Archive.entryOf (some (clock r.featureVersion)) r))) ∧
      ∀ id e e', d.archive.row? id = some e → b.archive.row? id = some e' → e' ≠ e →
        ∃ r ∈ rs, r.id = id ∧ e' = Archive.entryOf (some (clock r.featureVersion)) r ∧
          ∀ x, h id = some x → r.featureVersion = x.release.featureVersion →
            x.release.updatedAt.isBefore r.updatedAt = true := by
  intro d h
  obtain ⟨hsound, hholdings⟩ : Represents d h := represents_after start actions
  obtain ⟨report, b, hb, -⟩ := hsound.exists_importAll clock prune rs
  rw [← hholdings]
  exact ⟨report, d.withRows b, importAll_eq hb,
    fun r hr x hx hold =>
      ⟨fun hline => hsound.row?_importAll_of_line hrs hb hr hx hline hold,
        hsound.row?_importAll_of_other_line hrs hb hr hx⟩,
    fun id e e' he he' hne => hsound.exists_of_row?_importAll_ne hrs hb he he' hne⟩

/-- Stores two releases, of which `movedFeed` has an older copy of the one, in another line, and the
same copy of the other. -/
def beforeMove : List Action :=
  [.upsert (.atSecond 6) [.plain "moved" 11 (.atSecond 5), .plain "same" 8 (.atSecond 2)]]

def movedFeed : List Release := [.plain "moved" 8 (.atSecond 3), .plain "same" 8 (.atSecond 2)]

theorem importAll_movedFeed_keeps_same :
    (movedFeed.map (·.id)).Nodup ∧
    ∃ report b,
      (after .nothing beforeMove).importAll (Instant.atSecond 7) true movedFeed =
        (.ok report, b) ∧
      b.archive.row? "same" = (after .nothing beforeMove).archive.row? "same" ∧
      b.archive.row? "moved" =
        some (Archive.entryOf (some (.atSecond 7)) (.plain "moved" 8 (.atSecond 3))) := by
  have hids : (movedFeed.map (·.id)).Nodup := by decide
  obtain ⟨report, b, hb, hkeeps, -⟩ :=
    importAll_keeps_newer hids .nothing beforeMove (Instant.atSecond 7) true
  have hsame := hkeeps (.plain "same" 8 (.atSecond 2)) (by decide)
    ⟨.plain "same" 8 (.atSecond 2), true⟩ (by decide) (by decide)
  have hmoved := hkeeps (.plain "moved" 8 (.atSecond 3)) (by decide)
    ⟨.plain "moved" 11 (.atSecond 5), true⟩ (by decide) (by decide)
  exact ⟨hids, report, b, hb, hsame.1 rfl, hmoved.2 (by decide)⟩

/-- A document can be replaced by that of an older copy, which is then of another line. -/
theorem importAll_replaces_newer :
    ¬ ∀ (start : Start) (actions : List Action) (now : Instant) (prune : Bool)
        (rs : List Release), (rs.map (·.id)).Nodup →
      ∀ r ∈ rs, ∀ x, holdingsAfter start actions r.id = some x →
        x.release.updatedAt.isBefore r.updatedAt = false →
        (((after start actions).importAll now prune rs).2.archive.row? r.id).map (·.document) =
          ((after start actions).archive.row? r.id).map (·.document) := by
  intro hkeeps
  have hids : (movedFeed.map (·.id)).Nodup := by decide
  have hmem : .plain "moved" 8 (.atSecond 3) ∈ movedFeed := by decide
  have hx : holdingsAfter .nothing beforeMove "moved" =
      some ⟨.plain "moved" 11 (.atSecond 5), true⟩ := by decide
  have hsame := hkeeps .nothing beforeMove (.atSecond 7) true movedFeed hids _ hmem _ hx (by decide)
  obtain ⟨hsound, hholdings⟩ : Represents _ _ := represents_after .nothing beforeMove
  rw [← hholdings] at hx
  obtain ⟨report, b, hb, -⟩ := hsound.exists_importAll (Instant.atSecond 7) true movedFeed
  have hmoved : b.row? "moved" =
      some (Archive.entryOf (some (.atSecond 7)) (.plain "moved" 8 (.atSecond 3))) :=
    hsound.row?_importAll_of_other_line hids hb hmem hx (by decide)
  obtain ⟨e, he, hid, hparse, -⟩ := hsound.holdings_eq_some.1 hx
  have hbefore : (after .nothing beforeMove).archive.row? "moved" = some e :=
    Archive.row?_eq_some.2 ⟨he, hid⟩
  have hdocument : Release.print (.plain "moved" 8 (.atSecond 3)) = e.document := by
    rw [importAll_eq hb] at hsame
    change (b.row? "moved").map _ = (Archive.row? _ "moved").map _ at hsame
    rw [hmoved, hbefore] at hsame
    exact Option.some.inj hsame
  rw [← hdocument, Release.parse?_print] at hparse
  exact absurd hparse (by decide)

end Database

end ReleaseCatalog

import ReleaseCatalog.Proofs.Archive.Import

namespace ReleaseCatalog

namespace Holdings

theorem isOutdatedFor_eq_false {h : Holdings} {f : UInt32} {r : Release} :
    h.isOutdatedFor f r = false ↔
      ∃ s, h.line f r.id = some s ∧ s.updatedAt.isBefore r.updatedAt = false :=
  Release.isOutdatedIn_eq_false

theorem isOutdatedFor_congr {h g : Holdings} {f : UInt32} {r : Release}
    (hline : h.line f r.id = g.line f r.id) : h.isOutdatedFor f r = g.isOutdatedFor f r := by
  rw [isOutdatedFor, isOutdatedFor, hline]

theorem line_eq_none_of_ne {h : Holdings} {f g : UInt32} {id : String} {r : Release}
    (hr : h.line f id = some r) (hne : g ≠ f) : h.line g id = none := by
  obtain ⟨b, hx, rfl⟩ := line_eq_some.1 hr
  rw [Option.eq_none_iff_forall_ne_some]
  intro s hs
  obtain ⟨b', hx', rfl⟩ := line_eq_some.1 hs
  rw [hx] at hx'
  cases hx'
  exact hne rfl

/-- The copy of an id that an import of a line files: the last of those that are new or newer. -/
def filed? (h : Holdings) (f : UInt32) (rs : List Release) (id : String) : Option Release :=
  (rs.filter (h.isOutdatedFor f)).reverse.find? (·.id == id)

variable {h g : Holdings} {f : UInt32} {rs : List Release} {id : String} {r : Release}

theorem of_filed?_eq_some (hr : h.filed? f rs id = some r) :
    r ∈ rs ∧ r.id = id ∧ h.isOutdatedFor f r = true := by
  have hmem := List.mem_filter.1 (List.mem_reverse.1 (List.mem_of_find?_eq_some hr))
  exact ⟨hmem.1, by simpa using List.find?_some hr, hmem.2⟩

theorem filed?_eq_none :
    h.filed? f rs id = none ↔ ∀ r ∈ rs, r.id = id → h.isOutdatedFor f r = false := by
  rw [filed?, List.find?_eq_none]
  constructor
  · intro hnone r hr hid
    rw [← Bool.not_eq_true]
    intro hout
    exact hnone r (List.mem_reverse.2 (List.mem_filter.2 ⟨hr, hout⟩)) (beq_iff_eq.2 hid)
  · intro hcurrent r hr hid
    obtain ⟨hr, hout⟩ := List.mem_filter.1 (List.mem_reverse.1 hr)
    rw [hcurrent r hr (beq_iff_eq.1 hid)] at hout
    cases hout

theorem filed?_of_not_mem (hid : id ∉ rs.map (·.id)) : h.filed? f rs id = none :=
  filed?_eq_none.2 fun _ hr he => absurd (he ▸ List.mem_map_of_mem hr) hid

/-- Only the releases of the id count, and what the line holds under it. -/
theorem filed?_congr {ss : List Release} (hline : h.line f id = g.line f id)
    (hcopies : rs.filter (·.id == id) = ss.filter (·.id == id)) :
    h.filed? f rs id = g.filed? f ss id := by
  have hsame (r : Release) (hr : r.id = id) : h.isOutdatedFor f r = g.isOutdatedFor f r :=
    isOutdatedFor_congr (hr ▸ hline)
  have hcopy (k : Holdings) (ts : List Release) :
      k.filed? f ts id = ((ts.filter (·.id == id)).filter (k.isOutdatedFor f)).reverse.head? := by
    rw [filed?, ← List.head?_filter, List.filter_reverse, List.filter_comm]
  rw [hcopy, hcopy, ← hcopies]
  refine congrArg (·.reverse.head?) (List.filter_congr fun r hr => hsame r ?_)
  exact beq_iff_eq.1 (List.mem_filter.1 hr).2

theorem isSome_filed?_or_line (h : Holdings) (f : UInt32) (hr : r ∈ rs) :
    ((h.filed? f rs r.id).or (h.line f r.id)).isSome = true :=
  Release.isSome_current? (h.line f) hr

end Holdings

namespace Archive

theorem line_congr {a b : Archive} {id : String} (h : a.row? id = b.row? id) (f : UInt32) :
    a.holdings.line f id = b.holdings.line f id := by
  rw [Holdings.line, holdings, h]
  rfl

theorem line_eq_none {a : Archive} {id : String} (h : a.row? id = none) (f : UInt32) :
    a.holdings.line f id = none := by
  rw [Holdings.line, holdings, h]
  rfl

theorem line_entryOf {a : Archive} {id : String} {importedAt : Option Instant} {r : Release}
    (h : a.row? id = some (entryOf importedAt r)) :
    a.holdings.line r.featureVersion id = some r := by
  rw [Holdings.line_eq_some]
  refine ⟨importedAt.isSome, ?_, rfl⟩
  rw [holdings, h, Option.bind_some, held?_entryOf]

theorem line_eq_filed?_or_line {a b : Archive} {id : String} {f : UInt32} {rs : List Release}
    {importedAt : Option Instant} (hf : ∀ r ∈ rs, r.id = id → r.featureVersion = f)
    (hrow : b.row? id =
      ((a.holdings.filed? f rs id).map (entryOf importedAt)).or (a.row? id)) :
    b.holdings.line f id = (a.holdings.filed? f rs id).or (a.holdings.line f id) := by
  cases hfiled : a.holdings.filed? f rs id with
  | none =>
    rw [hfiled] at hrow
    exact line_congr hrow f
  | some r =>
    rw [hfiled] at hrow
    obtain ⟨hr, hid, -⟩ := Holdings.of_filed?_eq_some hfiled
    rw [← hf r hr hid]
    exact line_entryOf hrow

theorem IsSound.row?_importLine {a b : Archive} (h : a.IsSound) {now : Instant} {prune : Bool}
    {f : UInt32} {incoming : List Release} {report : ImportReport}
    (hb : importLine now prune f incoming a = .ok (report, b)) (id : String) :
    b.row? id =
      if prune ∧ (a.holdings.line f id).isSome ∧ id ∉ incoming.map (·.id) then none
      else ((a.holdings.filed? f incoming id).map (entryOf (some now))).or (a.row? id) := by
  obtain ⟨c, hc, hget⟩ := h.exists_readOrEmpty f
  have hremovals := h.mem_removals hget now incoming id
  have hfiled : (c.difference incoming).upserts.reverse.find? (·.id == id) =
      a.holdings.filed? f incoming id := by
    rw [Catalog.difference, isOutdatedFor_eq hget, Holdings.filed?]
  rw [importLine, hc] at hb
  cases hb
  rw [row?_eraseAll, Archive.upsert, row?_fileAll, hfiled]
  refine if_congr ?_ rfl rfl
  cases prune with
  | false => simp
  | true => exact hremovals.trans (and_iff_right rfl).symm

theorem IsSound.of_importLine {a b : Archive} (h : a.IsSound) {now : Instant} {prune : Bool}
    {f : UInt32} {incoming : List Release} {report : ImportReport}
    (hb : importLine now prune f incoming a = .ok (report, b)) : b.IsSound := by
  obtain ⟨_, _, hb', hsound, -⟩ := h.exists_importLine now prune f incoming
  rw [hb] at hb'
  cases hb'
  exact hsound

theorem importLines_cons_eq_ok {a b : Archive} {clock : Clock} {prune : Bool} {rs : List Release}
    {report total : ImportReport} {f : UInt32} {fs : List UInt32}
    (h : importLines clock prune rs report a (f :: fs) = (.ok total, b)) :
    ∃ (r : ImportReport) (c : Archive),
      importLine (clock f) prune f (rs.filter (·.featureVersion == f)) a = .ok (r, c) ∧
      importLines clock prune rs
        { upserted := report.upserted + r.upserted
          unchanged := report.unchanged + r.unchanged
          removed := report.removed + r.removed } c fs = (.ok total, b) := by
  rw [importLines] at h
  cases hline : importLine (clock f) prune f (rs.filter (·.featureVersion == f)) a with
  | error e =>
    rw [hline] at h
    cases h
  | ok x =>
    rw [hline] at h
    exact ⟨x.1, x.2, rfl, h⟩

section Lines

variable {a b : Archive} {now : Instant} {clock : Clock} {prune : Bool} {rs : List Release}
  {report total : ImportReport} {f : UInt32} {fs : List UInt32} {id : String}

theorem IsSound.row?_importLine_of_absent (h : a.IsSound)
    (hb : importLine now prune f (rs.filter (·.featureVersion == f)) a = .ok (report, b))
    (habsent : ∀ r ∈ rs, r.id = id → r.featureVersion ≠ f) :
    b.row? id = if prune ∧ (a.holdings.line f id).isSome then none else a.row? id := by
  have hid : id ∉ (rs.filter (·.featureVersion == f)).map (·.id) := by
    intro hmem
    obtain ⟨r, hr, hid⟩ := List.mem_map.1 hmem
    obtain ⟨hr, hf⟩ := List.mem_filter.1 hr
    exact habsent r hr hid (beq_iff_eq.1 hf)
  rw [h.row?_importLine hb, Holdings.filed?_of_not_mem hid, Option.map_none, Option.none_or]
  exact if_congr (and_congr_right fun _ => and_iff_left hid) rfl rfl

theorem IsSound.row?_importLine_of_mem (h : a.IsSound)
    (hb : importLine now prune f (rs.filter (·.featureVersion == f)) a = .ok (report, b))
    {s : Release} (hs : s ∈ rs) (hline : ∀ r ∈ rs, r.id = s.id → r.featureVersion = f) :
    b.row? s.id =
      ((a.holdings.filed? f rs s.id).map (entryOf (some now))).or (a.row? s.id) := by
  have hcopies : (rs.filter (·.featureVersion == f)).filter (·.id == s.id) =
      rs.filter (·.id == s.id) := by
    rw [List.filter_filter]
    refine List.filter_congr fun r hr => ?_
    by_cases hid : r.id = s.id
    · simp [hid, hline r hr hid]
    · simp [hid]
  have hid : s.id ∈ (rs.filter (·.featureVersion == f)).map (·.id) :=
    List.mem_map_of_mem (List.mem_filter.2 ⟨hs, beq_iff_eq.2 (hline s hs rfl)⟩)
  rw [h.row?_importLine hb, if_neg fun hp => hp.2.2 hid, Holdings.filed?_congr rfl hcopies]

theorem IsSound.row?_importLines_of_absent (h : a.IsSound)
    (hb : importLines clock prune rs report a fs = (.ok total, b))
    (habsent : ∀ r ∈ rs, r.id = id → r.featureVersion ∉ fs) :
    b.row? id =
      if prune ∧ ∃ f ∈ fs, (a.holdings.line f id).isSome then none else a.row? id := by
  induction fs generalizing a report with
  | nil =>
    cases hb
    simp
  | cons f fs ih =>
    obtain ⟨r, c, hc, hb⟩ := importLines_cons_eq_ok hb
    have hrow := h.row?_importLine_of_absent hc fun r hr he hf =>
      habsent r hr he (List.mem_cons.2 (.inl hf))
    rw [ih (h.of_importLine hc) hb fun r hr he hf => habsent r hr he (List.mem_cons_of_mem _ hf)]
    by_cases hp : prune = true ∧ (a.holdings.line f id).isSome = true
    · rw [if_pos hp] at hrow
      rw [hrow, ite_self, if_pos ⟨hp.1, f, List.mem_cons_self .., hp.2⟩]
    · rw [if_neg hp] at hrow
      simp only [line_congr hrow, hrow]
      refine if_congr (and_congr_right fun hprune => ?_) rfl rfl
      rw [List.exists_mem_cons_iff]
      exact (or_iff_right fun hf => hp ⟨hprune, hf⟩).symm

/-- A row that the list has releases for is what their line makes of it, whichever lines come before
and after. -/
theorem IsSound.row?_importLines_of_mem (h : a.IsSound)
    (hb : importLines clock prune rs report a fs = (.ok total, b)) (hfs : fs.Nodup)
    (hf : f ∈ fs) {s : Release} (hs : s ∈ rs)
    (hline : ∀ r ∈ rs, r.id = s.id → r.featureVersion = f) :
    b.row? s.id =
      ((a.holdings.filed? f rs s.id).map (entryOf (some (clock f)))).or (a.row? s.id) := by
  have hheld (h : Holdings) := h.isSome_filed?_or_line f hs
  induction fs generalizing a report with
  | nil => cases hf
  | cons g fs ih =>
    obtain ⟨hg, hfs⟩ := List.nodup_cons.1 hfs
    obtain ⟨r, c, hc, hrest⟩ := importLines_cons_eq_ok hb
    have hsound := h.of_importLine hc
    by_cases hfg : f = g
    · -- The line of the releases. The lines after it find the row in no line of theirs.
      subst hfg
      have hrow := h.row?_importLine_of_mem hc hs hline
      obtain ⟨t, ht⟩ := Option.isSome_iff_exists.1 (hheld a.holdings)
      rw [← line_eq_filed?_or_line hline hrow] at ht
      rw [hsound.row?_importLines_of_absent hrest fun r hr hid => hline r hr hid ▸ hg, ← hrow]
      refine if_neg ?_
      rintro ⟨-, k, hk, hsome⟩
      rw [Holdings.line_eq_none_of_ne ht fun he => hg (he ▸ hk)] at hsome
      cases hsome
    · -- Another line. If it erases the row, the line of the releases held nothing under the id.
      have hrow := h.row?_importLine_of_absent hc fun r hr hid he =>
        hfg ((hline r hr hid).symm.trans he)
      rw [ih hsound hrest hfs ((List.mem_cons.1 hf).resolve_left hfg)]
      by_cases hp : prune = true ∧ (a.holdings.line g s.id).isSome = true
      · rw [if_pos hp] at hrow
        obtain ⟨t, ht⟩ := Option.isSome_iff_exists.1 hp.2
        have hnone := Holdings.line_eq_none_of_ne ht hfg
        have hfiled := hheld a.holdings
        rw [hnone, Option.or_none] at hfiled
        obtain ⟨u, hu⟩ := Option.isSome_iff_exists.1 hfiled
        rw [Holdings.filed?_congr ((line_eq_none hrow f).trans hnone.symm) rfl, hu]
        rfl
      · rw [if_neg hp] at hrow
        rw [Holdings.filed?_congr (line_congr hrow f) rfl, hrow]

end Lines

end Archive

end ReleaseCatalog

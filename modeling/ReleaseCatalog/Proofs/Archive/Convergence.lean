import Mathlib.Data.List.Pairwise
import ReleaseCatalog.Proofs.Archive.Locality
import ReleaseCatalog.Proofs.Archive.Refinement

namespace ReleaseCatalog

namespace Release

/-- Releases of one id are of one line, and none comes after a newer one. -/
def InOrder (rs : List Release) : Prop :=
  rs.Pairwise fun r s => r.id = s.id →
    r.featureVersion = s.featureVersion ∧ s.updatedAt.isBefore r.updatedAt = false

instance (rs : List Release) : Decidable (InOrder rs) :=
  inferInstanceAs (Decidable (rs.Pairwise _))

variable {rs : List Release} {r s : Release}

theorem InOrder.isChronological (h : InOrder rs) : IsChronological rs :=
  h.imp fun hrs hid => (hrs hid).2

theorem InOrder.featureVersion_eq (h : InOrder rs) (hr : r ∈ rs) (hs : s ∈ rs)
    (hid : r.id = s.id) : r.featureVersion = s.featureVersion := by
  have hline := h.imp fun {r s} hrs (hid : r.id = s.id) => (hrs hid).1
  have hflip := hline.imp fun {r s} hrs (hid : s.id = r.id) => (hrs hid.symm).symm
  exact hline.forall_of_forall_of_flip (fun _ _ _ => rfl) hflip hr hs hid

end Release

namespace Holdings

variable {h : Holdings} {f : UInt32} {rs : List Release} {r s : Release}

theorem isBefore_of_filed?_or_line (hrs : Release.InOrder rs) (hr : r ∈ rs)
    (hs : (h.filed? f rs r.id).or (h.line f r.id) = some s) :
    s.updatedAt.isBefore r.updatedAt = false :=
  hrs.isChronological.isBefore_of_current? hs hr

end Holdings

namespace Archive

theorem mem_linesOf {rs : List Release} {f : UInt32} :
    f ∈ linesOf rs ↔ ∃ r ∈ rs, r.featureVersion = f := by
  rw [linesOf, mem_ascending, List.mem_map]

theorem pairwise_linesOf (rs : List Release) : (linesOf rs).Pairwise (· < ·) :=
  pairwise_ascending _

theorem nodup_linesOf (rs : List Release) : (linesOf rs).Nodup :=
  (pairwise_linesOf rs).imp UInt32.ne_of_lt

section Counts

variable {a b : Archive} {now : Instant} {clock : Clock} {prune : Bool} {rs : List Release}
  {report total : ImportReport} {f : UInt32} {fs : List UInt32}

theorem counts_importLine {incoming : List Release}
    (hb : importLine now prune f incoming a = .ok (report, b)) :
    report.upserted + report.unchanged = incoming.length := by
  rw [importLine] at hb
  cases hc : a.readOrEmpty f with
  | error e =>
    rw [hc] at hb
    cases hb
  | ok c =>
    rw [hc] at hb
    cases hb
    exact Nat.add_sub_cancel' (List.length_filter_le _ _)

theorem countP_mem_cons (hf : f ∉ fs) (rs : List Release) :
    rs.countP (·.featureVersion ∈ f :: fs) =
      (rs.filter (·.featureVersion == f)).length + rs.countP (·.featureVersion ∈ fs) := by
  rw [← List.countP_eq_length_filter]
  induction rs with
  | nil => rfl
  | cons r rs ih =>
    rw [List.countP_cons, List.countP_cons, List.countP_cons, ih]
    by_cases hr : r.featureVersion = f
    · simp [hr, hf]
      omega
    · simp [hr]
      omega

theorem counts_importLines (hb : importLines clock prune rs report a fs = (.ok total, b))
    (hfs : fs.Nodup) :
    total.upserted + total.unchanged =
      report.upserted + report.unchanged + rs.countP (·.featureVersion ∈ fs) := by
  induction fs generalizing a report with
  | nil =>
    cases hb
    simp
  | cons f fs ih =>
    obtain ⟨hf, hfs⟩ := List.nodup_cons.1 hfs
    obtain ⟨r, c, hc, hb⟩ := importLines_cons_eq_ok hb
    have hline := counts_importLine hc
    rw [ih hb hfs, countP_mem_cons hf, ← hline]
    dsimp only
    omega

theorem counts_importAll (hb : a.importAll clock prune rs = (.ok total, b)) :
    total.upserted + total.unchanged = rs.length := by
  have hall : rs.countP (·.featureVersion ∈ linesOf rs) = rs.length :=
    List.countP_eq_length.2 fun r hr => decide_eq_true (mem_linesOf.2 ⟨r, hr, rfl⟩)
  rw [counts_importLines hb (nodup_linesOf rs), hall]
  exact Nat.zero_add _

end Counts

section Import

variable {a b : Archive} {clock : Clock} {prune : Bool} {rs : List Release}
  {report : ImportReport} {f : UInt32} {id : String}

theorem IsSound.of_importAll (h : a.IsSound) (hb : a.importAll clock prune rs = (.ok report, b)) :
    b.IsSound := by
  obtain ⟨_, _, hb', hsound, -⟩ := h.exists_importAll clock prune rs
  rw [hb] at hb'
  cases hb'
  exact hsound

theorem IsSound.row?_importAll_of_absent (h : a.IsSound)
    (hb : a.importAll clock prune rs = (.ok report, b)) (hid : ∀ r ∈ rs, r.id ≠ id) :
    b.row? id =
      if prune ∧ ∃ f ∈ linesOf rs, (a.holdings.line f id).isSome then none else a.row? id :=
  h.row?_importLines_of_absent hb fun r hr he => absurd he (hid r hr)

theorem IsSound.line_importAll (h : a.IsSound) (hrs : Release.InOrder rs)
    (hb : a.importAll clock prune rs = (.ok report, b)) {r : Release} (hr : r ∈ rs) :
    b.holdings.line r.featureVersion r.id =
      (a.holdings.filed? r.featureVersion rs r.id).or (a.holdings.line r.featureVersion r.id) := by
  have hline : ∀ s ∈ rs, s.id = r.id → s.featureVersion = r.featureVersion :=
    fun s hs hid => hrs.featureVersion_eq hs hr hid
  exact line_eq_filed?_or_line hline (h.row?_importLines_of_mem hb (nodup_linesOf rs)
    (mem_linesOf.2 ⟨r, hr, rfl⟩) hr hline)

theorem IsSound.exists_line_importAll (h : a.IsSound) (hrs : Release.InOrder rs)
    (hb : a.importAll clock prune rs = (.ok report, b)) {r : Release} (hr : r ∈ rs) :
    ∃ s, b.holdings.line r.featureVersion r.id = some s ∧
      s.updatedAt.isBefore r.updatedAt = false := by
  have hline := h.line_importAll hrs hb hr
  obtain ⟨s, hs⟩ := Option.isSome_iff_exists.1
    (a.holdings.isSome_filed?_or_line r.featureVersion hr)
  exact ⟨s, hline.trans hs, Holdings.isBefore_of_filed?_or_line hrs hr hs⟩

theorem IsSound.mem_of_line_importAll (h : a.IsSound) (hrs : Release.InOrder rs)
    (hb : a.importAll clock true rs = (.ok report, b)) (hf : f ∈ linesOf rs) {s : Release}
    (hs : b.holdings.line f id = some s) : ∃ r ∈ rs, r.featureVersion = f ∧ r.id = id := by
  -- An id that the list lacks is gone. One that it has is held in its own line, so in no other.
  by_cases hid : ∀ r ∈ rs, r.id ≠ id
  · have hrow := h.row?_importAll_of_absent hb hid
    by_cases hp : ∃ g ∈ linesOf rs, (a.holdings.line g id).isSome
    · rw [if_pos ⟨rfl, hp⟩] at hrow
      rw [line_eq_none hrow] at hs
      cases hs
    · rw [if_neg fun hp' => hp hp'.2] at hrow
      rw [line_congr hrow] at hs
      exact absurd ⟨f, hf, Option.isSome_iff_exists.2 ⟨s, hs⟩⟩ hp
  · simp only [not_forall, not_not] at hid
    obtain ⟨r, hr, rfl⟩ := hid
    obtain ⟨t, ht, -⟩ := h.exists_line_importAll hrs hb hr
    refine ⟨r, hr, ?_, rfl⟩
    rcases Decidable.em (f = r.featureVersion) with hfr | hfr
    · exact hfr.symm
    · rw [Holdings.line_eq_none_of_ne ht hfr] at hs
      cases hs

theorem IsSound.importLine_of_current (h : a.IsSound) {incoming : List Release}
    (hcurrent : ∀ r ∈ incoming, a.holdings.isOutdatedFor f r = false)
    (hprune : prune = true → ∀ id, (a.holdings.line f id).isSome = true →
      id ∈ incoming.map (·.id)) (now : Instant) :
    importLine now prune f incoming a = .ok ({ unchanged := incoming.length }, a) := by
  obtain ⟨c, hc, hget⟩ := h.exists_readOrEmpty f
  have hupserts : (c.difference incoming).upserts = [] := by
    rw [Catalog.difference, isOutdatedFor_eq hget, List.filter_eq_nil_iff]
    intro r hr
    rw [hcurrent r hr]
    exact Bool.false_ne_true
  have hremovals : prune = true → (c.difference incoming).removals = [] := by
    intro hp
    rw [Catalog.difference, List.filter_eq_nil_iff]
    intro id hid
    rw [Catalog.mem_ids, Catalog.contains_eq_isSome, hget] at hid
    simpa using hprune hp id hid
  rw [importLine, hc]
  simp only [bind, Except.bind, hupserts]
  cases prune with
  | false => rfl
  | true =>
    simp only [hremovals rfl]
    rfl

theorem IsSound.importLines_of_current (h : a.IsSound) {fs : List UInt32}
    (hcurrent : ∀ r ∈ rs, a.holdings.isOutdatedFor r.featureVersion r = false)
    (hprune : prune = true → ∀ f ∈ fs, ∀ id, (a.holdings.line f id).isSome = true →
      ∃ r ∈ rs, r.featureVersion = f ∧ r.id = id) (clock : Clock) (report : ImportReport) :
    ∃ total, importLines clock prune rs report a fs = (.ok total, a) ∧
      total.upserted = report.upserted ∧ total.removed = report.removed := by
  induction fs generalizing report with
  | nil => exact ⟨report, rfl, rfl, rfl⟩
  | cons f fs ih =>
    have hline : importLine (clock f) prune f (rs.filter (·.featureVersion == f)) a =
        .ok ({ unchanged := (rs.filter (·.featureVersion == f)).length }, a) := by
      refine h.importLine_of_current (fun r hr => ?_) (fun hp id hid => ?_) (clock f)
      · obtain ⟨hr, hf⟩ := List.mem_filter.1 hr
        rw [← beq_iff_eq.1 hf]
        exact hcurrent r hr
      · obtain ⟨r, hr, hf, rfl⟩ := hprune hp f (List.mem_cons_self ..) id hid
        exact List.mem_map_of_mem (List.mem_filter.2 ⟨hr, beq_iff_eq.2 hf⟩)
    rw [importLines, hline]
    exact ih (fun hp g hg => hprune hp g (List.mem_cons_of_mem _ hg)) _

/-- The same import made again files nothing, erases nothing and leaves the archive as it is. -/
theorem IsSound.importAll_again (h : a.IsSound) (hrs : Release.InOrder rs)
    (hb : a.importAll clock prune rs = (.ok report, b)) (later : Clock) :
    b.importAll later prune rs = (.ok { unchanged := rs.length }, b) := by
  have hcurrent : ∀ r ∈ rs, b.holdings.isOutdatedFor r.featureVersion r = false :=
    fun r hr => Holdings.isOutdatedFor_eq_false.2 (h.exists_line_importAll hrs hb hr)
  have hprune : prune = true → ∀ f ∈ linesOf rs, ∀ id, (b.holdings.line f id).isSome = true →
      ∃ r ∈ rs, r.featureVersion = f ∧ r.id = id := by
    rintro rfl f hf id hid
    obtain ⟨s, hs⟩ := Option.isSome_iff_exists.1 hid
    exact h.mem_of_line_importAll hrs hb hf hs
  obtain ⟨total, htotal, hupserted, hremoved⟩ :=
    (h.of_importAll hb).importLines_of_current hcurrent hprune later {}
  have hcounts := counts_importAll htotal
  obtain ⟨upserted, unchanged, removed⟩ := total
  dsimp only at hupserted hremoved hcounts
  subst hupserted hremoved
  rw [Nat.zero_add] at hcounts
  rw [importAll, htotal, hcounts]

end Import

/-- What an import brings about. -/
structure IsUpToDate (before after : Archive) (prune : Bool) (rs : List Release) : Prop where
  /-- Each release is stored in its line, by a copy that is not older. -/
  current : ∀ r ∈ rs, ∃ c s, after.read r.featureVersion = .ok c ∧ c.get? r.id = some s ∧
    s.updatedAt.isBefore r.updatedAt = false
  /-- A pruned line holds the ids that the list has for it. -/
  pruned : prune = true → ∀ r ∈ rs, ∃ c, after.read r.featureVersion = .ok c ∧
    ∀ id, c.contains id = true ↔ ∃ s ∈ rs, s.featureVersion = r.featureVersion ∧ s.id = id
  kept : prune = false → ∀ id, before.contains id = true → after.contains id = true
  /-- Rows of other ids stay as they are, unless their line is pruned. -/
  untouched : ∀ id, (∀ r ∈ rs, r.id ≠ id) →
    (prune = true → ∀ e, before.row? id = some e → ∀ r ∈ rs, r.featureVersion ≠ e.featureVersion) →
    after.row? id = before.row? id

theorem IsSound.exists_row_of_line {a : Archive} (h : a.IsSound) {f : UInt32} {id : String}
    {r : Release} (hr : a.holdings.line f id = some r) :
    ∃ e, a.row? id = some e ∧ e.featureVersion = f := by
  obtain ⟨b, hx, hf⟩ := Holdings.line_eq_some.1 hr
  obtain ⟨e, he, hid, -, hfe, -⟩ := h.holdings_eq_some.1 hx
  exact ⟨e, row?_eq_some.2 ⟨he, hid⟩, hfe.trans hf⟩

theorem IsSound.isUpToDate_importAll {a b : Archive} (h : a.IsSound) {clock : Clock} {prune : Bool}
    {rs : List Release} {report : ImportReport} (hrs : Release.InOrder rs)
    (hb : a.importAll clock prune rs = (.ok report, b)) : IsUpToDate a b prune rs where
  current r hr := by
    obtain ⟨s, hs, hbefore⟩ := h.exists_line_importAll hrs hb hr
    obtain ⟨c, hc, hget⟩ := (h.of_importAll hb).read_of_line hs
    exact ⟨c, s, hc, (hget r.id).trans hs, hbefore⟩
  pruned := by
    rintro rfl r hr
    obtain ⟨s, hs, -⟩ := h.exists_line_importAll hrs hb hr
    obtain ⟨c, hc, hget⟩ := (h.of_importAll hb).read_of_line hs
    refine ⟨c, hc, fun id => ?_⟩
    rw [Catalog.contains_eq_isSome, hget]
    constructor
    · intro hid
      obtain ⟨t, ht⟩ := Option.isSome_iff_exists.1 hid
      exact h.mem_of_line_importAll hrs hb (mem_linesOf.2 ⟨r, hr, rfl⟩) ht
    · rintro ⟨t, ht, hf, rfl⟩
      obtain ⟨u, hu, -⟩ := h.exists_line_importAll hrs hb ht
      rw [← hf, hu]
      rfl
  kept := by
    rintro rfl id hid
    rw [Archive.contains_eq_isSome] at hid ⊢
    by_cases habsent : ∀ r ∈ rs, r.id ≠ id
    · rw [h.row?_importAll_of_absent hb habsent, if_neg fun hp => Bool.false_ne_true hp.1]
      exact hid
    · simp only [not_forall, not_not] at habsent
      obtain ⟨r, hr, rfl⟩ := habsent
      obtain ⟨s, hs, -⟩ := h.exists_line_importAll hrs hb hr
      obtain ⟨e, he, -⟩ := (h.of_importAll hb).exists_row_of_line hs
      rw [he]
      rfl
  untouched id habsent hline := by
    rw [h.row?_importAll_of_absent hb habsent]
    refine if_neg ?_
    rintro ⟨hp, f, hf, hid⟩
    obtain ⟨s, hs⟩ := Option.isSome_iff_exists.1 hid
    obtain ⟨e, he, hfe⟩ := h.exists_row_of_line hs
    obtain ⟨r, hr, hfr⟩ := mem_linesOf.1 hf
    exact hline hp e he r hr (hfr.trans hfe.symm)

end Archive

namespace Database

theorem importAll_eq {d : Database} {b : Archive} {clock : Clock} {prune : Bool}
    {rs : List Release} {answer : Except ReadError ImportReport}
    (h : d.archive.importAll clock prune rs = (answer, b)) :
    d.importAll clock prune rs = (answer, d.withRows b) := by
  rw [importAll, h]

/-- Stores two releases of `movingFeed`, of which one is to move to another line, and one that the
feed lacks. -/
def beforeFeed : List Action :=
  [.upsert (.atSecond 0) [.plain "moved" 11 (.atSecond 5), .plain "twice" 8 (.atSecond 2),
    .plain "old" 11 (.atSecond 1)]]

/-- A feed in which one release has moved and another comes twice. -/
def movingFeed : List Release :=
  [.plain "moved" 8 (.atSecond 3), .plain "twice" 8 (.atSecond 1), .plain "twice" 8 (.atSecond 4),
    .plain "new" 11 (.atSecond 2)]

end Database

end ReleaseCatalog

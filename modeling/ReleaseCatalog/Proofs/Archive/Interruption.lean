import Mathlib.Data.List.Sort
import ReleaseCatalog.Proofs.Archive.Convergence

namespace ReleaseCatalog

namespace Archive

variable {a b : Archive} {now : Instant} {clock : Clock} {prune : Bool} {rs : List Release}
  {report total : ImportReport} {f : UInt32} {fs : List UInt32} {e : ReadError}

theorem read_eq (a : Archive) (f : UInt32) :
    a.read f =
      if a.documents f = [] then .error (.notFound f)
      else ((a.documents f).mapM Release.parse?).elim (.error .document) (.ok <| .ofReleases ·) := by
  rw [read]
  cases a.documents f with
  | nil => rfl
  | cons d ds =>
    rw [if_neg (List.cons_ne_nil d ds)]
    cases hrs : (d :: ds).mapM Release.parse? with
    | none => simp only [hrs, Option.elim_none]
    | some rs => simp only [hrs, Option.elim_some]

theorem read_eq_document :
    a.read f = .error .document ↔
      ∃ x ∈ a.entries, x.featureVersion = f ∧ Release.parse? x.document = none := by
  have hmalformed : (a.documents f).mapM Release.parse? = none ↔
      ∃ x ∈ a.entries, x.featureVersion = f ∧ Release.parse? x.document = none := by
    rw [mapM_eq_none]
    simp [documents, and_assoc]
  rw [← hmalformed, read_eq]
  split
  · next hnil => simp [hnil]
  · cases (a.documents f).mapM Release.parse? with
    | none => simp
    | some rs => simp

theorem eq_of_read_eq_error (h : a.read f = .error e) : e = .notFound f ∨ e = .document := by
  rw [read_eq] at h
  split at h
  · cases h
    exact .inl rfl
  · cases hrs : (a.documents f).mapM Release.parse? with
    | none =>
      rw [hrs] at h
      cases h
      exact .inr rfl
    | some rs =>
      rw [hrs] at h
      cases h

theorem readOrEmpty_eq_error :
    a.readOrEmpty f = .error e ↔ e = .document ∧ a.read f = .error .document := by
  rw [readOrEmpty]
  cases hread : a.read f with
  | ok c => simp
  | error d =>
    rcases eq_of_read_eq_error hread with rfl | rfl
    · simp
    · simp [eq_comm]

theorem importLine_eq_error {incoming : List Release} :
    importLine now prune f incoming a = .error e ↔
      e = .document ∧ a.read f = .error .document := by
  rw [← readOrEmpty_eq_error, importLine]
  cases a.readOrEmpty f with
  | error d => simp [bind, Except.bind]
  | ok c => simp [bind, Except.bind, pure, Except.pure]

theorem mem_fileAll {importedAt : Option Instant} {x : Entry}
    (hx : x ∈ (a.fileAll importedAt rs).entries) :
    x ∈ a.entries ∨ ∃ r ∈ rs, x = entryOf importedAt r := by
  have hrow := row?_eq_some.2 ⟨hx, rfl⟩
  rw [row?_fileAll] at hrow
  cases hr : rs.reverse.find? (·.id == x.id) with
  | some r =>
    rw [hr] at hrow
    cases hrow
    exact .inr ⟨r, List.mem_reverse.1 (List.mem_of_find?_eq_some hr), rfl⟩
  | none =>
    rw [hr] at hrow
    exact .inl (row?_eq_some.1 hrow).1

theorem mem_eraseAll {ids : List String} {x : Entry} (hx : x ∈ (a.eraseAll ids).entries) :
    x ∈ a.entries := by
  have hrow := row?_eq_some.2 ⟨hx, rfl⟩
  rw [row?_eraseAll] at hrow
  split at hrow
  · cases hrow
  · exact (row?_eq_some.1 hrow).1

theorem mem_importLine {incoming : List Release}
    (hb : importLine now prune f incoming a = .ok (report, b)) {x : Entry} (hx : x ∈ b.entries) :
    x ∈ a.entries ∨ ∃ r ∈ incoming, x = entryOf (some now) r := by
  rw [importLine] at hb
  cases hc : a.readOrEmpty f with
  | error d =>
    rw [hc] at hb
    cases hb
  | ok c =>
    rw [hc] at hb
    cases hb
    rcases mem_fileAll (mem_eraseAll hx) with hx | ⟨r, hr, rfl⟩
    · exact .inl hx
    · exact .inr ⟨r, (List.mem_filter.1 hr).1, rfl⟩

theorem mem_importLines (hb : importLines clock prune rs report a fs = (.ok total, b)) {x : Entry}
    (hx : x ∈ b.entries) :
    x ∈ a.entries ∨
      ∃ r ∈ rs, r.featureVersion ∈ fs ∧ x = entryOf (some (clock r.featureVersion)) r := by
  induction fs generalizing a report with
  | nil =>
    cases hb
    exact .inl hx
  | cons f fs ih =>
    obtain ⟨_, c, hc, hb⟩ := importLines_cons_eq_ok hb
    rcases ih hb with hx | ⟨r, hr, hf, rfl⟩
    · rcases mem_importLine hc hx with hx | ⟨r, hr, rfl⟩
      · exact .inl hx
      · obtain ⟨hr, hf⟩ := List.mem_filter.1 hr
        have hrf : r.featureVersion = f := beq_iff_eq.1 hf
        exact .inr ⟨r, hr, List.mem_cons.2 (.inl hrf), by rw [hrf]⟩
    · exact .inr ⟨r, hr, List.mem_cons_of_mem _ hf, rfl⟩

/-- A malformed document that is found in the end was there from the start. -/
theorem read_of_importLines (hb : importLines clock prune rs report a fs = (.ok total, b))
    (hread : b.read f = .error .document) : a.read f = .error .document := by
  obtain ⟨x, hx, hf, hparse⟩ := read_eq_document.1 hread
  rcases mem_importLines hb hx with hx | ⟨r, -, -, rfl⟩
  · exact read_eq_document.2 ⟨x, hx, hf, hparse⟩
  · rw [entryOf, Release.parse?_print] at hparse
    cases hparse

/-- A run over lines that fails has imported the lines before one that it cannot read. -/
theorem exists_of_importLines_eq_error
    (h : importLines clock prune rs report a fs = (.error e, b)) :
    ∃ before f after, fs = before ++ f :: after ∧ e = .document ∧ b.read f = .error .document ∧
      ∃ total, importLines clock prune rs report a before = (.ok total, b) := by
  induction fs generalizing a report with
  | nil => cases h
  | cons f fs ih =>
    rw [importLines] at h
    cases hline : importLine (clock f) prune f (rs.filter (·.featureVersion == f)) a with
    | error d =>
      rw [hline] at h
      cases h
      obtain ⟨rfl, hread⟩ := importLine_eq_error.1 hline
      exact ⟨[], f, fs, rfl, rfl, hread, report, rfl⟩
    | ok x =>
      rw [hline] at h
      obtain ⟨before, g, after, rfl, he, hread, total, htotal⟩ := ih h
      refine ⟨f :: before, g, after, rfl, he, hread, total, ?_⟩
      rw [importLines, hline]
      exact htotal

theorem importLines_congr {ss : List Release}
    (h : ∀ f ∈ fs, rs.filter (·.featureVersion == f) = ss.filter (·.featureVersion == f)) :
    importLines clock prune rs report a fs = importLines clock prune ss report a fs := by
  induction fs generalizing a report with
  | nil => rfl
  | cons f fs ih =>
    rw [importLines, importLines, h f (List.mem_cons_self ..)]
    split
    · exact ih fun g hg => h g (List.mem_cons_of_mem _ hg)
    · rfl

theorem linesOf_filter_lt {before after : List UInt32} (h : linesOf rs = before ++ f :: after) :
    linesOf (rs.filter (·.featureVersion < f)) = before := by
  have hsorted := pairwise_linesOf rs
  rw [h] at hsorted
  obtain ⟨hbefore, hafter, hlt⟩ := List.pairwise_append.1 hsorted
  refine List.Pairwise.eq_of_mem_iff (pairwise_linesOf _) hbefore fun g => ?_
  have hmem : g ∈ linesOf (rs.filter (·.featureVersion < f)) ↔ g ∈ linesOf rs ∧ g < f := by
    simp only [mem_linesOf, List.mem_filter, decide_eq_true_eq]
    constructor
    · rintro ⟨r, ⟨hr, hlt⟩, rfl⟩
      exact ⟨⟨r, hr, rfl⟩, hlt⟩
    · rintro ⟨⟨r, hr, rfl⟩, hlt⟩
      exact ⟨r, ⟨hr, hlt⟩, rfl⟩
  rw [hmem, h, List.mem_append]
  constructor
  · rintro ⟨hg | hg, hgf⟩
    · exact hg
    · rcases List.mem_cons.1 hg with rfl | hg
      · exact absurd hgf (UInt32.lt_irrefl _)
      · exact absurd hgf (UInt32.lt_asymm ((List.pairwise_cons.1 hafter).1 g hg))
  · exact fun hg => ⟨.inl hg, hlt g hg f (List.mem_cons_self ..)⟩

theorem importAll_nil (a : Archive) (clock : Clock) (prune : Bool) :
    a.importAll clock prune [] = (.ok {}, a) := by
  have hlines : linesOf [] = [] := by simp [linesOf, ascending]
  rw [importAll, hlines, importLines]

theorem exists_of_importAll_eq_error (h : a.importAll clock prune rs = (.error e, b)) :
    ∃ r ∈ rs, e = .document ∧ a.read r.featureVersion = .error .document ∧
      ∃ total, a.importAll clock prune (rs.filter (·.featureVersion < r.featureVersion)) =
        (.ok total, b) := by
  obtain ⟨before, f, after, hsplit, he, hread, total, htotal⟩ := exists_of_importLines_eq_error h
  have hbefore := linesOf_filter_lt hsplit
  obtain ⟨r, hr, rfl⟩ : ∃ r ∈ rs, r.featureVersion = f := by
    rw [← mem_linesOf, hsplit]
    simp
  refine ⟨r, hr, he, read_of_importLines htotal hread, total, ?_⟩
  rw [importAll, hbefore, ← htotal]
  refine importLines_congr fun g hg => ?_
  rw [← hbefore] at hg
  obtain ⟨s, hs, rfl⟩ := mem_linesOf.1 hg
  have hlt : s.featureVersion < r.featureVersion := of_decide_eq_true (List.mem_filter.1 hs).2
  rw [List.filter_filter]
  refine List.filter_congr fun t ht => ?_
  by_cases hts : t.featureVersion = s.featureVersion
  · simp [hts, hlt]
  · simp [hts]

end Archive

namespace Database

/-- Whatever is stored, an import that fails has met a malformed document in a line of its releases
and leaves what an import of the releases of lower lines leaves, which succeeds: nothing of that line
or of a higher one is written, and nothing at all where the line is the lowest. -/
theorem importAll_stops {d b : Database} {clock : Clock} {prune : Bool} {rs : List Release}
    {e : ReadError} (h : d.importAll clock prune rs = (.error e, b)) :
    ∃ r ∈ rs, e = .document ∧ d.read r.featureVersion = .error .document ∧
      (∃ report, d.importAll clock prune (rs.filter (·.featureVersion < r.featureVersion)) =
        (.ok report, b)) ∧
      (∀ x ∈ b.archive.entries, x ∈ d.archive.entries ∨
        ∃ s ∈ rs, s.featureVersion < r.featureVersion ∧
          x = Archive.entryOf (some (clock s.featureVersion)) s) ∧
      ((∀ s ∈ rs, r.featureVersion ≤ s.featureVersion) → b = d) := by
  obtain ⟨answer, a, hall⟩ : ∃ answer a, d.archive.importAll clock prune rs = (answer, a) :=
    ⟨_, _, rfl⟩
  rw [importAll_eq hall] at h
  cases h
  obtain ⟨r, hr, he, hread, report, hreport⟩ := Archive.exists_of_importAll_eq_error hall
  refine ⟨r, hr, he, hread, ⟨report, importAll_eq hreport⟩, fun x hx => ?_, fun hlowest => ?_⟩
  · rcases Archive.mem_importLines hreport hx with hx | ⟨s, hs, -, rfl⟩
    · exact .inl hx
    · obtain ⟨hs, hlt⟩ := List.mem_filter.1 hs
      exact .inr ⟨s, hs, of_decide_eq_true hlt, rfl⟩
  · have hnone : rs.filter (·.featureVersion < r.featureVersion) = [] := by
      rw [List.filter_eq_nil_iff]
      intro s hs hlt
      exact UInt32.not_lt.2 (hlowest s hs) (of_decide_eq_true hlt)
    rw [hnone, Archive.importAll_nil] at hreport
    cases hreport
    rfl

/-- A database in which one document, of the line 11, is malformed. -/
def damaged : Database :=
  (ofStored none).withRows (Archive.empty.file ⟨"damaged", 11, "no document", none⟩)

/-- A feed of which the lower line can be imported into `damaged` and the higher cannot. -/
def damagedFeed : List Release := [.plain "high" 11 (.atSecond 1), .plain "low" 8 (.atSecond 2)]

theorem importAll_damagedFeed :
    (damaged.importAll (Instant.atSecond 3) true damagedFeed).1 = .error .document ∧
      (damaged.importAll (Instant.atSecond 3) true damagedFeed).2.archive.contains "low" = true := by
  have hlines : Archive.linesOf damagedFeed = [8, 11] := by
    have hmajors : damagedFeed.map (·.featureVersion) = [11, 8] := by decide
    refine List.Pairwise.eq_of_mem_iff (Archive.pairwise_linesOf _) (by decide) fun f => ?_
    rw [Archive.linesOf, Archive.mem_ascending, hmajors]
    simp [or_comm]
  simp only [importAll, Archive.importAll, hlines]
  decide

theorem importAll_stops_damagedFeed :
    ∃ b, damaged.importAll (Instant.atSecond 3) true damagedFeed = (.error .document, b) ∧
      ∃ r ∈ damagedFeed, damaged.read r.featureVersion = .error .document ∧
        ∃ report, damaged.importAll (Instant.atSecond 3) true
          (damagedFeed.filter (·.featureVersion < r.featureVersion)) = (.ok report, b) := by
  obtain ⟨b, hb⟩ : ∃ b,
      damaged.importAll (Instant.atSecond 3) true damagedFeed = (.error .document, b) :=
    ⟨_, Prod.ext importAll_damagedFeed.1 rfl⟩
  obtain ⟨r, hr, -, hread, hreport, -⟩ := importAll_stops hb
  exact ⟨b, hb, r, hr, hread, hreport⟩

/-- A failed import may leave rows of lower lines behind. -/
theorem importAll_not_atomic :
    ¬ ∀ (d b : Database) (now : Instant) (prune : Bool) (rs : List Release) (e : ReadError),
      d.importAll now prune rs = (.error e, b) →
        ∀ x, x ∈ b.archive.entries ↔ x ∈ d.archive.entries := by
  intro hatomic
  have hsame := hatomic damaged _ (.atSecond 3) true damagedFeed .document
    (Prod.ext importAll_damagedFeed.1 rfl)
  obtain ⟨x, hx, hid⟩ := List.any_eq_true.1 importAll_damagedFeed.2
  have hlow : damaged.archive.contains "low" = true :=
    List.any_eq_true.2 ⟨x, (hsame x).1 hx, hid⟩
  exact absurd hlow (by decide)

end Database

end ReleaseCatalog

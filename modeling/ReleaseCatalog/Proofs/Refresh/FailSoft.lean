import Mathlib.Data.Nat.Find
import ReleaseCatalog.Proofs.Catalog.Union
import ReleaseCatalog.Proofs.Traversal
import ReleaseCatalog.Refresh.Loop

namespace ReleaseCatalog

/-- The fault that the answer to a read has: it is an error, though not that nothing is filed, or
it holds a release of another feature version, of which the first by id is named. -/
inductive ReadFault (f : UInt32) : Except ReadError Line → RefreshError → Prop where
  | source {e : ReadError} (h : ∀ g, e ≠ .notFound g) : ReadFault f (.error e) (.source f e)
  | mismatch {l : Line} {r : Release} (hr : l.releases.get? r.id = some r)
      (hne : r.version.major ≠ f)
      (hfirst : ∀ s, l.releases.get? s.id = some s → compare s.id r.id = .lt →
        s.version.major = f) :
      ReadFault f (.ok l) (.mismatch ⟨f, r.id, r.version.major⟩)

theorem ReadError.eq_notFound_or (e : ReadError) :
    (∃ g, e = .notFound g) ∨ ∀ g, e ≠ .notFound g := by
  cases e <;> simp

namespace Line

/-- The line of an answer, filed under what was asked for; none for an error. -/
def answered? (f : UInt32) : Except ReadError Line → Option Line
  | .ok l => some ⟨f, l.releases⟩
  | .error _ => none

theorem answered?_eq_some {f : UInt32} {answer : Except ReadError Line} {l : Line} :
    answered? f answer = some l ↔
      ∃ answered, answer = .ok answered ∧ l = ⟨f, answered.releases⟩ := by
  cases answer <;> simp [answered?, eq_comm]

theorem featureVersion_of_answered? {f : UInt32} {answer : Except ReadError Line} {l : Line}
    (h : answered? f answer = some l) : l.featureVersion = f := by
  obtain ⟨_, -, rfl⟩ := answered?_eq_some.1 h
  rfl

theorem first_offender_unique {c : Catalog} {f : UInt32} {r s : Release}
    (hr : c.get? r.id = some r) (hs : c.get? s.id = some s) (hrf : r.version.major ≠ f)
    (hsf : s.version.major ≠ f)
    (hfirst : ∀ t, c.get? t.id = some t → compare t.id r.id = .lt → t.version.major = f)
    (hfirst' : ∀ t, c.get? t.id = some t → compare t.id s.id = .lt → t.version.major = f) :
    r = s := by
  cases hc : compare r.id s.id with
  | lt => exact absurd (hfirst' r hr hc) hrf
  | gt => exact absurd (hfirst s hs (Std.OrientedCmp.lt_of_gt hc)) hsf
  | eq =>
    rw [Std.LawfulEqCmp.eq_of_compare hc, hs] at hr
    exact (Option.some.inj hr).symm

theorem readFault_of_mismatch? {f : UInt32} {l : Line} {m : FeatureVersionMismatch}
    (h : mismatch? ⟨f, l.releases⟩ = some m) : ReadFault f (.ok l) (.mismatch m) := by
  obtain ⟨r, hr, hne, hfirst, rfl⟩ := exists_of_mismatch? h
  exact .mismatch hr hne hfirst

theorem ofAnswer_of_ne_notFound {f : UInt32} {cause : ReadError}
    (h : ∀ g, cause ≠ .notFound g) : ofAnswer f (.error cause) = .error (.source f cause) := by
  cases cause with
  | notFound g => exact absurd rfl (h g)
  | document => rfl
  | database => rfl
  | lockPoisoned => rfl

theorem ofAnswer_eq_error_iff {f : UInt32} {answer : Except ReadError Line} {e : RefreshError} :
    ofAnswer f answer = .error e ↔ ReadFault f answer e := by
  constructor
  · intro h
    cases answer with
    | error cause =>
      rcases cause.eq_notFound_or with ⟨g, rfl⟩ | hcause
      · cases h
      · rw [ofAnswer_of_ne_notFound hcause] at h
        cases h
        exact .source hcause
    | ok l =>
      rw [ofAnswer] at h
      cases hm : mismatch? ⟨f, l.releases⟩ with
      | none => rw [hm] at h; cases h
      | some m =>
        rw [hm] at h
        cases h
        exact readFault_of_mismatch? hm
  · intro h
    cases h with
    | source h => exact ofAnswer_of_ne_notFound h
    | @mismatch l r hr hne hfirst =>
      rw [ofAnswer]
      cases hm : mismatch? ⟨f, l.releases⟩ with
      | none => exact absurd (mismatch?_eq_none.1 hm _ _ hr) hne
      | some m =>
        obtain ⟨s, hs, hsne, hfirst', rfl⟩ := exists_of_mismatch? hm
        rw [first_offender_unique hr hs hne hsne hfirst hfirst']
        rfl

theorem ofAnswer_eq_ok {f : UInt32} {answer : Except ReadError Line}
    (h : ∀ e, ¬ ReadFault f answer e) : ofAnswer f answer = .ok (answered? f answer) := by
  cases answer with
  | error cause =>
    rcases cause.eq_notFound_or with ⟨g, rfl⟩ | hcause
    · rfl
    · exact absurd (.source hcause) (h _)
  | ok l =>
    rw [ofAnswer]
    cases hm : mismatch? ⟨f, l.releases⟩ with
    | none => rfl
    | some m => exact absurd (readFault_of_mismatch? hm) (h _)

theorem mismatch?_of_answered? {f : UInt32} {answer : Except ReadError Line} {l : Line}
    (h : ∀ e, ¬ ReadFault f answer e) (hl : answered? f answer = some l) :
    l.mismatch? = none := by
  obtain ⟨answered, rfl, rfl⟩ := answered?_eq_some.1 hl
  cases hm : mismatch? ⟨f, answered.releases⟩ with
  | none => rfl
  | some m => exact absurd (readFault_of_mismatch? hm) (h _)

theorem answered?_eq_none {f : UInt32} {answer : Except ReadError Line}
    (h : ∀ e, ¬ ReadFault f answer e) :
    answered? f answer = none ↔ ∃ g, answer = .error (.notFound g) := by
  cases answer with
  | ok l => simp [answered?]
  | error cause =>
    rcases cause.eq_notFound_or with ⟨g, rfl⟩ | hcause
    · exact iff_of_true rfl ⟨g, rfl⟩
    · exact absurd (.source hcause) (h _)

theorem exists_readFault_iff {f : UInt32} {answer : Except ReadError Line} :
    (∃ e, ReadFault f answer e) ↔
      (∃ e, answer = .error e ∧ ∀ g, e ≠ .notFound g) ∨
      ∃ l id r, answer = .ok l ∧ l.releases.get? id = some r ∧ r.version.major ≠ f := by
  constructor
  · rintro ⟨e, h⟩
    cases h with
    | source h => exact .inl ⟨_, rfl, h⟩
    | mismatch hr hne _ => exact .inr ⟨_, _, _, rfl, hr, hne⟩
  · rintro (⟨e, rfl, h⟩ | ⟨l, id, r, rfl, hr, hne⟩)
    · exact ⟨_, .source h⟩
    · cases hm : mismatch? ⟨f, l.releases⟩ with
      | none => exact absurd (mismatch?_eq_none.1 hm _ _ hr) hne
      | some m => exact ⟨_, readFault_of_mismatch? hm⟩

end Line

theorem find?_filterMap_eq_findSome? {α β : Type} (g : α → Option β) (p : β → Bool) (as : List α) :
    (as.filterMap g).find? p = as.findSome? fun a => (g a).filter p := by
  induction as with
  | nil => rfl
  | cons a as ih =>
    rw [List.filterMap_cons, List.findSome?_cons, ← ih]
    cases g a with
    | none => rfl
    | some b => cases hb : p b <;> simp [Option.filter, hb]

namespace Cycle

def HasFault (c : Cycle) (i : Nat) (e : RefreshError) : Prop :=
  ∃ f, c.featureVersions[i]? = some f ∧ ReadFault f (c.answer i f) e

/-- The lines that the answers stand for, in the order of the reads. -/
def lines (c : Cycle) : List Line :=
  c.featureVersions.zipIdx.filterMap fun (f, i) => Line.answered? f (c.answer i f)

theorem pairwise_arrivalsInOrder (answer : Nat → Source) (fs : List UInt32) :
    (arrivalsInOrder answer fs).Pairwise fun x y => x.position < y.position := by
  have h : (fs.zipIdx.map Prod.snd).Pairwise (· < ·) := by
    rw [List.zipIdx_map_snd]
    exact List.pairwise_lt_range'
  exact List.pairwise_map.2 (List.pairwise_map.1 h)

theorem mem_arrivalsInOrder {answer : Nat → Source} {fs : List UInt32} {x : Arrival} :
    x ∈ arrivalsInOrder answer fs ↔ ∃ i f, fs[i]? = some f ∧ x = ⟨i, f, answer i f⟩ := by
  simp only [arrivalsInOrder, List.mem_map, Prod.exists, List.mk_mem_zipIdx_iff_getElem?]
  constructor
  · rintro ⟨f, i, hf, rfl⟩
    exact ⟨i, f, hf, rfl⟩
  · rintro ⟨i, f, hf, rfl⟩
    exact ⟨f, i, hf, rfl⟩

/-- In whatever order the answers arrive, they are put into the order of the reads. -/
theorem mergeSort_arrivals (c : Cycle) :
    c.arrivals.mergeSort (·.position ≤ ·.position) =
      arrivalsInOrder c.answer c.featureVersions := by
  have hperm := (List.mergeSort_perm c.arrivals (·.position ≤ ·.position)).trans c.isComplete
  have htrans (x y z : Arrival) (hxy : decide (x.position ≤ y.position) = true)
      (hyz : decide (y.position ≤ z.position) = true) : decide (x.position ≤ z.position) = true :=
    decide_eq_true (Nat.le_trans (of_decide_eq_true hxy) (of_decide_eq_true hyz))
  have htotal (x y : Arrival) :
      (decide (x.position ≤ y.position) || decide (y.position ≤ x.position)) = true := by
    simpa using Nat.le_total x.position y.position
  have hsorted := (List.pairwise_mergeSort htrans htotal c.arrivals).imp of_decide_eq_true
  have horder := pairwise_arrivalsInOrder c.answer c.featureVersions
  refine hperm.eq_of_pairwise (fun x y hx hy hxy hyx => ?_) hsorted (horder.imp Nat.le_of_lt)
  obtain ⟨i, f, hf, rfl⟩ := mem_arrivalsInOrder.1 (hperm.subset hx)
  obtain ⟨j, g, hg, rfl⟩ := mem_arrivalsInOrder.1 hy
  obtain rfl : i = j := Nat.le_antisymm hxy hyx
  obtain rfl : f = g := Option.some.inj (hf.symm.trans hg)
  rfl

theorem reading_eq (c : Cycle) :
    c.reading = (c.featureVersions.zipIdx.mapM fun x => Line.ofAnswer x.1 (c.answer x.2 x.1)).map
      fun ls => .ofLines (ls.filterMap id) := by
  rw [reading, Snapshot.ofArrivals, mergeSort_arrivals, arrivalsInOrder, List.mapM_map]
  rfl

/-- A cycle fails with the fault of the first read that has one. -/
theorem reading_eq_error_iff {c : Cycle} {e : RefreshError} :
    c.reading = .error e ↔ ∃ i, c.HasFault i e ∧ ∀ j < i, ∀ d, ¬ c.HasFault j d := by
  have hmap {m : Except RefreshError (List (Option Line))} :
      m.map (fun ls => Snapshot.ofLines (ls.filterMap id)) = .error e ↔ m = .error e := by
    cases m <;> simp [Except.map]
  rw [reading_eq, hmap, mapM_zipIdx_eq_error_iff fun i f => Line.ofAnswer f (c.answer i f)]
  constructor
  · rintro ⟨i, f, hf, he, hbefore⟩
    refine ⟨i, ⟨f, hf, Line.ofAnswer_eq_error_iff.1 he⟩, fun j hj d ⟨g, hg, hd⟩ => ?_⟩
    obtain ⟨l, hl⟩ := hbefore j hj g hg
    cases (Line.ofAnswer_eq_error_iff.2 hd).symm.trans hl
  · rintro ⟨i, ⟨f, hf, he⟩, hbefore⟩
    refine ⟨i, f, hf, Line.ofAnswer_eq_error_iff.2 he, fun j hj g hg => ?_⟩
    exact ⟨_, Line.ofAnswer_eq_ok fun d hd => hbefore j hj d ⟨g, hg, hd⟩⟩

theorem reading_eq_ok {c : Cycle} (h : ∀ i e, ¬ c.HasFault i e) :
    c.reading = .ok (.ofLines c.lines) := by
  have hreads : ∀ i f, c.featureVersions[i]? = some f →
      Line.ofAnswer f (c.answer i f) = .ok (Line.answered? f (c.answer i f)) :=
    fun i f hf => Line.ofAnswer_eq_ok fun e he => h i e ⟨f, hf, he⟩
  rw [reading_eq, mapM_zipIdx_eq_ok hreads, Except.map, List.filterMap_map]
  rfl

theorem exists_reading_eq_error_iff {c : Cycle} :
    (∃ e, c.reading = .error e) ↔ ∃ i e, c.HasFault i e := by
  constructor
  · rintro ⟨e, he⟩
    obtain ⟨i, hi, -⟩ := reading_eq_error_iff.1 he
    exact ⟨i, e, hi⟩
  · intro h
    classical
    obtain ⟨e, he⟩ := Nat.find_spec h
    refine ⟨e, reading_eq_error_iff.2 ⟨Nat.find h, he, fun j hj d hd => ?_⟩⟩
    exact Nat.find_min h hj ⟨d, hd⟩

theorem reading_eq_ok_iff {c : Cycle} {s : Snapshot} :
    c.reading = .ok s ↔ (∀ i e, ¬ c.HasFault i e) ∧ s = .ofLines c.lines := by
  constructor
  · intro hs
    have hnone : ∀ i e, ¬ c.HasFault i e := by
      intro i e h
      obtain ⟨d, hd⟩ := exists_reading_eq_error_iff.2 ⟨i, e, h⟩
      rw [hs] at hd
      cases hd
    rw [reading_eq_ok hnone] at hs
    exact ⟨hnone, (Except.ok.inj hs).symm⟩
  · rintro ⟨hnone, rfl⟩
    exact reading_eq_ok hnone

theorem mem_lines {c : Cycle} {l : Line} :
    l ∈ c.lines ↔
      ∃ i f, c.featureVersions[i]? = some f ∧ Line.answered? f (c.answer i f) = some l := by
  simp only [lines, List.mem_filterMap, Prod.exists, List.mk_mem_zipIdx_iff_getElem?]
  exact exists_comm

theorem pairwise_zipIdx_reverse (fs : List UInt32) :
    fs.zipIdx.reverse.Pairwise fun x y => y.2 < x.2 := by
  rw [List.pairwise_reverse, ← List.pairwise_map, List.zipIdx_map_snd]
  exact List.pairwise_lt_range'

/-- Of the reads of a feature version the last that finds something counts. -/
theorem line?_ofLines_lines_eq_some {c : Cycle} {f : UInt32} {l : Line} :
    (Snapshot.ofLines c.lines).line? f = some l ↔
      ∃ i, c.featureVersions[i]? = some f ∧ Line.answered? f (c.answer i f) = some l ∧
        ∀ j > i, c.featureVersions[j]? = some f → Line.answered? f (c.answer j f) = none := by
  have hread (g : UInt32) (i : Nat) (k : Line) :
      (Line.answered? g (c.answer i g)).filter (·.featureVersion == f) = some k ↔
        g = f ∧ Line.answered? g (c.answer i g) = some k := by
    rw [Option.filter_eq_some_iff, beq_iff_eq, and_comm]
    exact and_congr_left fun hk => by rw [Line.featureVersion_of_answered? hk]
  rw [Snapshot.line?_ofLines, lines, ← List.filterMap_reverse, find?_filterMap_eq_findSome?,
    findSome?_eq_some_iff_of_pairwise (fun _ _ => Nat.lt_asymm) (pairwise_zipIdx_reverse _)]
  simp only [List.mem_reverse, Prod.exists, Prod.forall, List.mk_mem_zipIdx_iff_getElem?,
    Option.isSome_iff_exists, hread]
  constructor
  · rintro ⟨g, i, hg, ⟨rfl, hl⟩, hlast⟩
    refine ⟨i, hg, hl, fun j hj hg' => Option.eq_none_iff_forall_ne_some.2 fun k hk => ?_⟩
    rcases hlast g j hg' ⟨k, rfl, hk⟩ with heq | hlt
    · exact Nat.ne_of_gt hj (Prod.mk.inj heq).2
    · exact Nat.lt_asymm hj hlt
  · rintro ⟨i, hf, hl, hlast⟩
    refine ⟨f, i, hf, ⟨rfl, hl⟩, ?_⟩
    rintro _ j hg ⟨k, rfl, hk⟩
    rcases Nat.lt_trichotomy j i with hji | rfl | hij
    · exact .inr hji
    · exact .inl rfl
    · rw [hlast j hij hg] at hk
      cases hk

theorem line?_ofLines_lines_eq_ok {c : Cycle} (h : ∀ i e, ¬ c.HasFault i e) {f : UInt32}
    {l : Line} :
    (Snapshot.ofLines c.lines).line? f = some l ↔
      ∃ (i : Nat) (answered : Line), c.featureVersions[i]? = some f ∧
        c.answer i f = .ok answered ∧ l = ⟨f, answered.releases⟩ ∧
        ∀ j > i, c.featureVersions[j]? = some f → ∃ g, c.answer j f = .error (.notFound g) := by
  have habsent (j : Nat) (hj : c.featureVersions[j]? = some f) :
      Line.answered? f (c.answer j f) = none ↔ ∃ g, c.answer j f = .error (.notFound g) :=
    Line.answered?_eq_none fun e he => h j e ⟨f, hj, he⟩
  rw [line?_ofLines_lines_eq_some]
  constructor
  · rintro ⟨i, hi, hl, hlast⟩
    obtain ⟨answered, ha, rfl⟩ := Line.answered?_eq_some.1 hl
    exact ⟨i, answered, hi, ha, rfl, fun j hj hf => (habsent j hf).1 (hlast j hj hf)⟩
  · rintro ⟨i, answered, hi, ha, hl, hlast⟩
    exact ⟨i, hi, Line.answered?_eq_some.2 ⟨answered, ha, hl⟩,
      fun j hj hf => (habsent j hf).2 (hlast j hj hf)⟩

theorem line?_ofLines_lines_eq_none {c : Cycle} (h : ∀ i e, ¬ c.HasFault i e) {f : UInt32} :
    (Snapshot.ofLines c.lines).line? f = none ↔
      ∀ i, c.featureVersions[i]? = some f → ∃ g, c.answer i f = .error (.notFound g) := by
  have hread {i : Nat} {g : UInt32} (hg : c.featureVersions[i]? = some g) (e : RefreshError)
      (he : ReadFault g (c.answer i g) e) : False :=
    h i e ⟨g, hg, he⟩
  rw [Snapshot.line?_ofLines, List.find?_eq_none]
  constructor
  · intro hnone i hf
    rw [← Line.answered?_eq_none (hread hf)]
    cases hl : Line.answered? f (c.answer i f) with
    | none => rfl
    | some l =>
      have hne := hnone l (List.mem_reverse.2 (mem_lines.2 ⟨i, f, hf, hl⟩))
      rw [Line.featureVersion_of_answered? hl] at hne
      simp at hne
  · intro habsent l hl hlf
    obtain ⟨i, g, hg, hl⟩ := mem_lines.1 (List.mem_reverse.1 hl)
    have hlg := Line.featureVersion_of_answered? hl
    obtain rfl : g = f := hlg.symm.trans (beq_iff_eq.1 hlf)
    rw [(Line.answered?_eq_none (hread hg)).2 (habsent i hg)] at hl
    cases hl

theorem isConsistent_ofLines_lines {c : Cycle} (h : ∀ i e, ¬ c.HasFault i e) :
    (Snapshot.ofLines c.lines).IsConsistent := by
  apply Snapshot.isConsistent_ofLines
  intro l hl
  obtain ⟨i, f, hf, hl⟩ := mem_lines.1 hl
  exact Line.mismatch?_of_answered? (fun e he => h i e ⟨f, hf, he⟩) hl

end Cycle

namespace Board

def after (b : Board) (cs : List Cycle) : Board := cs.foldl (fun b c => (b.refresh c).2) b

theorem refresh_of_error {c : Cycle} {e : RefreshError} (h : c.reading = .error e) (b : Board) :
    b.refresh c = (.error e, b) := by
  rw [refresh, h]
  rfl

theorem refresh_of_ok {c : Cycle} {s : Snapshot} (h : c.reading = .ok s) (b : Board) :
    b.refresh c = (.ok (), b.publish s) := by
  rw [refresh, h]
  rfl

theorem refresh_fst_eq_error_iff {b : Board} {c : Cycle} {e : RefreshError} :
    (b.refresh c).1 = .error e ↔ c.reading = .error e := by
  rw [refresh]
  cases c.reading <;> simp [Except.map]

theorem refresh_fst_eq_ok_iff {b : Board} {c : Cycle} :
    (b.refresh c).1 = .ok () ↔ ∀ i e, ¬ c.HasFault i e := by
  rw [refresh]
  cases hc : c.reading with
  | ok s => exact iff_of_true rfl (Cycle.reading_eq_ok_iff.1 hc).1
  | error e =>
    obtain ⟨i, hi, -⟩ := Cycle.reading_eq_error_iff.1 hc
    exact iff_of_false nofun fun h => h i e hi

/-- After a run of cycles the board is as at the start, or as the last cycle left it that did not
fail. -/
theorem after_eq (start : Board) (cs : List Cycle) :
    (start.after cs = start ∧ ∀ c ∈ cs, ∃ i e, c.HasFault i e) ∨
      ∃ before c later, cs = before ++ c :: later ∧ (∀ i e, ¬ c.HasFault i e) ∧
        (∀ d ∈ later, ∃ i e, d.HasFault i e) ∧
        start.after cs = ⟨.ofLines c.lines, (start.after before).number + 1⟩ := by
  induction cs generalizing start with
  | nil => exact .inl ⟨rfl, by simp⟩
  | cons c cs ih =>
    have hafter : start.after (c :: cs) = (start.refresh c).2.after cs := rfl
    rcases ih (start.refresh c).2 with ⟨hsame, hfail⟩ | ⟨before, d, later, rfl, hd, hfail, heq⟩
    · rw [hafter, hsame]
      by_cases hc : ∃ i e, c.HasFault i e
      · obtain ⟨e, he⟩ := Cycle.exists_reading_eq_error_iff.2 hc
        rw [refresh_of_error he]
        refine .inl ⟨rfl, fun d hd => ?_⟩
        rcases List.mem_cons.1 hd with rfl | hd
        · exact hc
        · exact hfail d hd
      · have hnone : ∀ i e, ¬ c.HasFault i e := fun i e h => hc ⟨i, e, h⟩
        rw [refresh_of_ok (Cycle.reading_eq_ok hnone)]
        exact .inr ⟨[], c, cs, rfl, hnone, hfail, rfl⟩
    · exact .inr ⟨c :: before, d, later, rfl, hd, hfail, heq⟩

/-- After any run of cycles, whatever the answers and the order in which they arrive: a cycle fails
if and only if the answer to a read is an error, though not that nothing is filed, or holds a
release of another feature version; it reports the fault of the first such read and leaves the board
as it is. Otherwise the board has a new snapshot, which holds under each feature version what the
last read of it found that found something, and all of it is consistent. The board is thus as at the
start or as the last cycle left it that did not fail. -/
theorem refresh_after (start : Board) (cs : List Cycle) :
    let b := start.after cs
    (∀ c : Cycle, (∃ e, (b.refresh c).1 = .error e) ↔
      ∃ (i : Nat) (f : UInt32), c.featureVersions[i]? = some f ∧
        ((∃ e, c.answer i f = .error e ∧ ∀ g, e ≠ .notFound g) ∨
          ∃ l id r, c.answer i f = .ok l ∧ l.releases.get? id = some r ∧
            r.version.major ≠ f)) ∧
    (∀ (c : Cycle) (e : RefreshError), (b.refresh c).1 = .error e →
      (∃ i, c.HasFault i e ∧ ∀ j < i, ∀ d, ¬ c.HasFault j d) ∧ (b.refresh c).2 = b) ∧
    (∀ c : Cycle, (b.refresh c).1 = .ok () →
      (b.refresh c).2.current = .ofLines c.lines ∧
      (b.refresh c).2.number = b.number + 1 ∧
      (∀ f l, (b.refresh c).2.current.line? f = some l ↔
        ∃ (i : Nat) (answered : Line), c.featureVersions[i]? = some f ∧
          c.answer i f = .ok answered ∧ l = ⟨f, answered.releases⟩ ∧
          ∀ j > i, c.featureVersions[j]? = some f → ∃ g, c.answer j f = .error (.notFound g)) ∧
      (∀ f, (b.refresh c).2.current.line? f = none ↔
        ∀ i : Nat, c.featureVersions[i]? = some f → ∃ g, c.answer i f = .error (.notFound g)) ∧
      (∀ l ∈ (b.refresh c).2.current.lines, l.mismatch? = none) ∧
      ∀ f id r, (b.refresh c).2.current.copy? f id = some r → r.version.major = f) ∧
    ((b = start ∧ ∀ c ∈ cs, ∃ i e, c.HasFault i e) ∨
      ∃ before c later, cs = before ++ c :: later ∧ (∀ i e, ¬ c.HasFault i e) ∧
        (∀ d ∈ later, ∃ i e, d.HasFault i e) ∧
        b.current = .ofLines c.lines ∧ b.number = (start.after before).number + 1) := by
  intro b
  refine ⟨fun c => ?_, fun c e he => ?_, fun c hc => ?_, ?_⟩
  · simp only [refresh_fst_eq_error_iff]
    rw [Cycle.exists_reading_eq_error_iff]
    constructor
    · rintro ⟨i, e, f, hf, he⟩
      exact ⟨i, f, hf, Line.exists_readFault_iff.1 ⟨e, he⟩⟩
    · rintro ⟨i, f, hf, h⟩
      obtain ⟨e, he⟩ := Line.exists_readFault_iff.2 h
      exact ⟨i, e, f, hf, he⟩
  · rw [refresh_fst_eq_error_iff] at he
    exact ⟨Cycle.reading_eq_error_iff.1 he, by rw [refresh_of_error he]⟩
  · rw [refresh_fst_eq_ok_iff] at hc
    have hs : (Snapshot.ofLines c.lines).IsConsistent := Cycle.isConsistent_ofLines_lines hc
    rw [refresh_of_ok (Cycle.reading_eq_ok hc)]
    exact ⟨rfl, rfl, fun f l => Cycle.line?_ofLines_lines_eq_ok hc,
      fun f => Cycle.line?_ofLines_lines_eq_none hc, hs, fun _ _ _ => hs.featureVersion_of_copy?⟩
  · rcases after_eq start cs with hstart | ⟨before, c, later, hcs, hc, hfail, hb⟩
    · exact .inl hstart
    · exact .inr ⟨before, c, later, hcs, hc, hfail, congrArg current hb, congrArg number hb⟩

/-- One of two lines is found. -/
def found : Cycle :=
  .inOrder (fun _ f => if f = 8 then .ok ⟨8, .ofReleases [.plain "x" 8 (.atSecond 0)]⟩
    else .error (.notFound f)) [8, 11]

/-- The line cannot be read any more. -/
def lost : Cycle :=
  .inOrder (fun _ f => if f = 8 then .error .database else .error (.notFound f)) [11, 8]

theorem refresh_after_found_lost :
    (initial.refresh found).1 = .ok () ∧
    ((initial.refresh found).2.current.line? 8).isSome = true ∧
    (initial.refresh found).2.current.line? 11 = none ∧
    ((initial.after [found]).refresh lost).1 = .error (.source 8 .database) ∧
    ((initial.after [found]).refresh lost).2 = initial.after [found] := by
  have hfound : (initial.refresh found).1 = .ok () := by
    rw [refresh, Cycle.reading_eq]
    decide +kernel
  have hlost : ((initial.after [found]).refresh lost).1 = .error (.source 8 .database) := by
    rw [refresh, Cycle.reading_eq]
    decide +kernel
  obtain ⟨-, -, hpublished, -⟩ := refresh_after initial []
  obtain ⟨-, hkept, -, -⟩ := refresh_after initial [found]
  obtain ⟨-, -, hline, hnone, -⟩ := hpublished found hfound
  refine ⟨hfound, Option.isSome_iff_exists.2 ⟨_, (hline 8 _).2 ⟨0, _, rfl, rfl, rfl, ?_⟩⟩,
    (hnone 11).2 ?_, hlost, (hkept lost _ hlost).2⟩
  · rintro (_ | _ | j) hj hf
    · cases hj
    · cases hf
    · cases hf
  · rintro (_ | _ | i) hi
    · cases hi
    · exact ⟨11, rfl⟩
    · cases hi

end Board

end ReleaseCatalog

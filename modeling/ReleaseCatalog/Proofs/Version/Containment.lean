import ReleaseCatalog.Proofs.Version.Rank
import ReleaseCatalog.Version.Range

namespace ReleaseCatalog

namespace Interval

variable {i : Interval} {inclusive : Bool} {a b c : Version}

/-- What a bound admits at one rank, it admits at every rank that is no nearer to the bound. -/
theorem admitsAbove_mono {o o' : Ordering} (hlt : o = .lt → o' = .lt) (hle : o.isLE → o'.isLE)
    (h : admitsAbove inclusive o = true) : admitsAbove inclusive o' = true := by
  cases o with
  | lt =>
    rw [hlt rfl]
    rfl
  | eq =>
    obtain rfl : inclusive = true := h
    have hle' := hle rfl
    cases o' with
    | gt => cases hle'
    | _ => rfl
  | gt => cases h

theorem contains_eq_true : i.contains a = true ↔
    (∀ l ∈ i.lower, admitsAbove i.lowerInclusive (compare l a) = true) ∧
      ∀ u ∈ i.upper, admitsAbove i.upperInclusive (compare a u) = true := by
  simp only [contains, Bool.and_eq_true, Option.all_eq_true, Option.mem_def]

theorem contains_of_between (hab : (compare a b).isLE) (hbc : (compare b c).isLE)
    (ha : i.contains a = true) (hc : i.contains c = true) : i.contains b = true := by
  rw [contains_eq_true] at ha hc ⊢
  constructor
  · intro l hl
    apply admitsAbove_mono ?_ ?_ (ha.1 l hl)
    · intro hlt
      exact Std.TransCmp.lt_of_lt_of_isLE hlt hab
    · intro hle
      exact Std.TransCmp.isLE_trans hle hab
  · intro u hu
    apply admitsAbove_mono ?_ ?_ (hc.2 u hu)
    · intro hlt
      exact Std.TransCmp.lt_of_isLE_of_lt hbc hlt
    · intro hle
      exact Std.TransCmp.isLE_trans hbc hle

theorem contains_congr (h : compare a b = .eq) : i.contains a = i.contains b := by
  have hab : (compare a b).isLE := Ordering.isLE_of_eq_eq h
  have hba : (compare b a).isLE := Ordering.isLE_of_eq_eq (Std.OrientedCmp.eq_symm h)
  rw [Bool.eq_iff_iff]
  constructor
  · intro ha
    exact contains_of_between hab hba ha ha
  · intro hb
    exact contains_of_between hba hab hb hb

theorem contains_exact_self (v : Version) : (exact v).contains v = true := by
  have hself : compare v v = .eq := Std.ReflCmp.compare_self
  rw [contains_eq_true]
  constructor
  · rintro _ ⟨⟩
    rw [hself]
    rfl
  · rintro _ ⟨⟩
    rw [hself]
    rfl

end Interval

namespace VersionRange

theorem contains_intervals {is : List Interval} {w : Version} :
    (intervals is).contains w = true ↔ ∃ i ∈ is, i.contains w = true := by
  rw [contains, List.any_eq_true]
  simp only [Interval.contains_congr w.compare_withoutIgnoredTag]

theorem contains_exact {v w : Version} :
    (exact v).contains w = true ↔ w.withoutIgnoredTag = v := by
  rw [contains, decide_eq_true_eq]

theorem contains_intervals_congr {a b : Version} (h : compare a b = .eq) (is : List Interval) :
    (intervals is).contains a = (intervals is).contains b := by
  rw [Bool.eq_iff_iff, contains_intervals, contains_intervals]
  simp only [Interval.contains_congr h]

theorem contains_withoutIgnoredTag (r : VersionRange) (w : Version) :
    r.contains w.withoutIgnoredTag = r.contains w := by
  cases r with
  | intervals is => exact contains_intervals_congr w.compare_withoutIgnoredTag is
  | exact v => rw [contains, contains, w.withoutIgnoredTag_withoutIgnoredTag]

theorem exists_interval_of_contains {r : VersionRange} {w : Version} (h : r.contains w = true) :
    ∃ i ∈ r.toIntervals, i.contains w = true := by
  cases r with
  | intervals is => exact contains_intervals.1 h
  | exact v =>
    refine ⟨.exact v, List.mem_singleton_self _, ?_⟩
    rw [← contains_exact.1 h, ← Interval.contains_congr w.compare_withoutIgnoredTag]
    exact Interval.contains_exact_self _

/-- A range of intervals sees only the rank of a version, and each interval holds all between the
versions that it holds. What a range holds lies in one of its intervals; the converse holds for a
range of intervals, while a range of one version holds that version alone. No range sees the ignored
tag. -/
theorem contains_by_rank :
    (∀ is a b, compare a b = .eq → (intervals is).contains a = (intervals is).contains b) ∧
    (∀ r w, contains r w.withoutIgnoredTag = contains r w) ∧
    (∀ (i : Interval) (a b c : Version), (compare a b).isLE → (compare b c).isLE →
      i.contains a = true → i.contains c = true → i.contains b = true) ∧
    (∀ r w, contains r w = true → ∃ i ∈ r.toIntervals, i.contains w = true) ∧
    (∀ is w, (intervals is).contains w = true ↔
      ∃ i ∈ (intervals is).toIntervals, i.contains w = true) ∧
    ∀ v w, (exact v).contains w = true ↔ w.withoutIgnoredTag = v := by
  refine ⟨fun is a b h => contains_intervals_congr h is, contains_withoutIgnoredTag, ?_, ?_, ?_, ?_⟩
  · intro i a b c hab hbc ha hc
    exact Interval.contains_of_between hab hbc ha hc
  · intro r w h
    exact exists_interval_of_contains h
  · intro is w
    exact contains_intervals
  · intro v w
    exact contains_exact

/-- A nightly build of 11.0.4+11. -/
def nightly11 : Version := Components.version ⟨11, 0, 4, some "beta", none, 11, none, none⟩

/-- From the nightly build on, and before 11.0.5. -/
def from11 : Interval := ⟨some nightly11, true, some (.release 11 0 5 0), false⟩

/-- An interval holds a nightly build with its release, and the builds between; a range of the
release alone holds the nightly build, but no dated build, which has the same rank. -/
theorem contains_by_rank_nightly :
    (intervals [from11]).contains nightly11 = (intervals [from11]).contains (.release 11 0 4 11) ∧
    from11.contains (.release 11 0 4 12) = true ∧
    (∃ i ∈ (VersionRange.exact (.release 11 0 4 11)).toIntervals,
      i.contains nightly11 = true) ∧
    (VersionRange.exact nightly11).contains nightly11 = false ∧
    compare (Components.version ⟨11, 0, 4, none, none, 11, none, some "2019-10-30"⟩)
      (.release 11 0 4 11) = .eq ∧
    (VersionRange.exact (.release 11 0 4 11)).contains
      (Components.version ⟨11, 0, 4, none, none, 11, none, some "2019-10-30"⟩) = false := by
  obtain ⟨hcongr, -, hbetween, hinterval, -, -⟩ := contains_by_rank
  refine ⟨?_, ?_, ?_, by decide +kernel, by decide +kernel, by decide +kernel⟩
  · exact hcongr [from11] nightly11 (.release 11 0 4 11) (by decide +kernel)
  · exact hbetween from11 (.release 11 0 4 11) (.release 11 0 4 12) (.release 11 0 4 13)
      (by decide +kernel) (by decide +kernel) (by decide +kernel) (by decide +kernel)
  · exact hinterval (.exact (.release 11 0 4 11)) nightly11 (by decide +kernel)

end VersionRange

end ReleaseCatalog

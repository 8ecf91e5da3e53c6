import Mathlib.Data.List.Pairwise
import ReleaseCatalog.Catalog.Basic

namespace ReleaseCatalog

namespace Instant

theorem isBefore_self (t : Instant) : t.isBefore t = false := by
  have hself : compare t t = .eq := Std.ReflCmp.compare_self
  rw [isBefore, hself]
  rfl

theorem isBefore_trans {s t u : Instant} (hst : s.isBefore t = true) (htu : t.isBefore u = true) :
    s.isBefore u = true := by
  rw [isBefore, beq_iff_eq] at *
  exact Std.TransCmp.lt_trans hst htu

/-- The seconds of one day, as far as the word goes. -/
def atSecond (second : UInt16) : Instant where
  date := ⟨2024, 1, 1, by decide⟩
  second := second.toNat
  nano := 0
  isTimeOfDay := ⟨Nat.lt_trans second.toNat_lt (by decide), .inl (by decide)⟩

end Instant

namespace Release

/-- A release that has no binaries. -/
def plain (id : String) (major : UInt32) (updatedAt : Instant) : Release where
  id := id
  kind := .generalAvailability
  name := id
  link := ""
  timestamp := updatedAt
  updatedAt := updatedAt
  vendor := .eclipse
  version := .release major 0 0 1
  downloadCount := 0
  binaries := []
  source := none

/-- Of the releases of one id none comes after a newer one. -/
def IsChronological (rs : List Release) : Prop :=
  rs.Pairwise fun r s => r.id = s.id → s.updatedAt.isBefore r.updatedAt = false

instance (rs : List Release) : Decidable (IsChronological rs) :=
  inferInstanceAs (Decidable (rs.Pairwise _))

/-- Whether nothing is held under the id of a release, or an older copy. -/
def isOutdatedIn (held : String → Option Release) (r : Release) : Bool :=
  (held r.id).all fun s => s.updatedAt.isBefore r.updatedAt

/-- The copy of an id once a list has been taken over: the last of those in the list that are new or
newer, or else the copy held before. -/
def current? (held : String → Option Release) (rs : List Release) (id : String) : Option Release :=
  ((rs.filter (isOutdatedIn held)).reverse.find? (·.id == id)).or (held id)

variable {held : String → Option Release} {rs : List Release} {r s : Release} {id : String}

theorem isOutdatedIn_eq_false :
    r.isOutdatedIn held = false ↔
      ∃ s, held r.id = some s ∧ s.updatedAt.isBefore r.updatedAt = false := by
  rw [isOutdatedIn]
  cases held r.id with
  | none => simp
  | some s => simp

theorem IsChronological.filter (h : IsChronological rs) (keep : Release → Bool) :
    IsChronological (rs.filter keep) :=
  List.Pairwise.filter keep h

theorem IsChronological.isBefore_of_find? (h : IsChronological rs)
    (hs : rs.reverse.find? (·.id == r.id) = some s) (hr : r ∈ rs) :
    s.updatedAt.isBefore r.updatedAt = false := by
  obtain ⟨hid, later, earlier, hsplit, hlater⟩ := List.find?_eq_some_iff_append.1 hs
  have hmem : r ∈ rs.reverse := List.mem_reverse.2 hr
  have horder := List.pairwise_reverse.2 h
  rw [hsplit] at hmem horder
  -- The list is reversed, so what stands after the copy that is found came before it.
  rcases List.mem_append.1 hmem with hmem | hmem
  · have hne := hlater r hmem
    simp at hne
  · rcases List.mem_cons.1 hmem with rfl | hmem
    · exact Instant.isBefore_self _
    · obtain ⟨-, horder, -⟩ := List.pairwise_append.1 horder
      exact (List.pairwise_cons.1 horder).1 r hmem (beq_iff_eq.1 hid).symm

theorem IsChronological.isBefore_of_current? (h : IsChronological rs)
    (hs : current? held rs r.id = some s) (hr : r ∈ rs) :
    s.updatedAt.isBefore r.updatedAt = false := by
  rw [current?] at hs
  cases hfound : (rs.filter (isOutdatedIn held)).reverse.find? (·.id == r.id) with
  | none =>
    rw [hfound, Option.none_or] at hs
    have hcurrent : r.isOutdatedIn held = false := by
      apply eq_false_of_ne_true
      intro hout
      have hne := List.find?_eq_none.1 hfound r
        (List.mem_reverse.2 (List.mem_filter.2 ⟨hr, hout⟩))
      simp at hne
    obtain ⟨t, ht, hbefore⟩ := isOutdatedIn_eq_false.1 hcurrent
    obtain rfl := Option.some.inj (hs.symm.trans ht)
    exact hbefore
  | some t =>
    rw [hfound, Option.some_or] at hs
    obtain rfl := Option.some.inj hs
    cases hout : r.isOutdatedIn held with
    | true => exact (h.filter _).isBefore_of_find? hfound (List.mem_filter.2 ⟨hr, hout⟩)
    | false =>
      -- The copy held is not older than this one, and the copy found is newer than the one held.
      obtain ⟨u, hu, hbefore⟩ := isOutdatedIn_eq_false.1 hout
      have hmem := List.mem_reverse.1 (List.mem_of_find?_eq_some hfound)
      have hnewer := (List.mem_filter.1 hmem).2
      have hid : t.id = r.id := by simpa using List.find?_some hfound
      rw [isOutdatedIn, hid, hu] at hnewer
      rw [← Bool.not_eq_true]
      intro ht
      rw [Instant.isBefore_trans hnewer ht] at hbefore
      cases hbefore

theorem isSome_current? (held : String → Option Release) (hr : r ∈ rs) :
    (current? held rs r.id).isSome = true := by
  rw [current?, Option.isSome_or, Bool.or_eq_true]
  cases hout : r.isOutdatedIn held with
  | true =>
    rw [List.find?_isSome]
    exact .inl ⟨r, List.mem_reverse.2 (List.mem_filter.2 ⟨hr, hout⟩), beq_self_eq_true _⟩
  | false =>
    obtain ⟨s, hs, -⟩ := isOutdatedIn_eq_false.1 hout
    rw [hs]
    exact .inr rfl

end Release

namespace Catalog

variable {c : Catalog} {rs : List Release} {id : String}

theorem isOutdatedFor_eq (c : Catalog) : c.isOutdatedFor = Release.isOutdatedIn c.get? := by
  funext r
  rw [isOutdatedFor, contains_eq_isSome, isOlder, Release.isOutdatedIn]
  cases c.get? r.id with
  | none => rfl
  | some s => rfl

theorem get?_foldl_erase (c : Catalog) (ids : List String) (id : String) :
    (ids.foldl erase c).get? id = if id ∈ ids then none else c.get? id := by
  induction ids generalizing c with
  | nil => simp
  | cons i ids ih =>
    rw [List.foldl_cons, ih, get?_erase]
    by_cases hi : i = id
    · simp [hi]
    · simp [hi, Ne.symm hi]

theorem mem_removals : id ∈ (c.difference rs).removals ↔
    c.contains id = true ∧ ∀ r ∈ rs, r.id ≠ id := by
  rw [difference, List.mem_filter, mem_ids]
  simp

theorem pairwise_removals (c : Catalog) (rs : List Release) :
    (c.difference rs).removals.Pairwise (· < ·) := by
  have hids : c.ids.Pairwise fun a b => compare a b = .lt := Std.ExtTreeMap.ordered_keys
  exact (hids.imp compareOfLessAndEq_eq_lt.1).filter _

/-- What the catalog holds once it has been brought in line with a list: no id but those of the
list. -/
theorem get?_apply_difference (c : Catalog) (rs : List Release) (id : String) :
    ((c.difference rs).apply c).get? id =
      if ∃ r ∈ rs, r.id = id then Release.current? c.get? rs id else none := by
  have hfound : (c.difference rs).upserts.reverse.find? (·.id == id) =
      (rs.filter (Release.isOutdatedIn c.get?)).reverse.find? (·.id == id) := by
    rw [difference, isOutdatedFor_eq]
  rw [Difference.apply, get?_foldl_erase, get?_insertAll, hfound, ← Release.current?]
  by_cases hid : ∃ r ∈ rs, r.id = id
  · rw [if_pos hid, if_neg]
    intro hremoved
    obtain ⟨r, hr, he⟩ := hid
    exact (mem_removals.1 hremoved).2 r hr he
  · have habsent : ∀ r ∈ rs, r.id ≠ id := fun r hr he => hid ⟨r, hr, he⟩
    rw [if_neg hid]
    by_cases hc : c.contains id = true
    · rw [if_pos (mem_removals.2 ⟨hc, habsent⟩)]
    · have hnone : c.get? id = none := by
        rw [contains_eq_isSome, Option.not_isSome_iff_eq_none] at hc
        exact hc
      rw [if_neg fun hremoved => hc (mem_removals.1 hremoved).1, Release.current?, hnone,
        Option.or_none, List.find?_eq_none]
      intro r hr he
      exact habsent r (List.mem_filter.1 (List.mem_reverse.1 hr)).1 (beq_iff_eq.1 he)

theorem contains_apply_difference :
    ((c.difference rs).apply c).contains id = true ↔ ∃ r ∈ rs, r.id = id := by
  rw [contains_eq_isSome, get?_apply_difference]
  constructor
  · intro h
    by_contra hid
    rw [if_neg hid] at h
    cases h
  · rintro ⟨r, hr, rfl⟩
    rw [if_pos ⟨r, hr, rfl⟩]
    exact Release.isSome_current? c.get? hr

theorem get?_apply_difference_of_untouched (hin : ∀ r ∈ (c.difference rs).upserts, r.id ≠ id)
    (hout : id ∉ (c.difference rs).removals) :
    ((c.difference rs).apply c).get? id = c.get? id := by
  rw [Difference.apply, get?_foldl_erase, if_neg hout, get?_insertAll]
  have hnone : (c.difference rs).upserts.reverse.find? (·.id == id) = none := by
    rw [List.find?_eq_none]
    intro r hr he
    exact hin r (List.mem_reverse.1 hr) (beq_iff_eq.1 he)
  rw [hnone, Option.none_or]

theorem exists_get?_apply_difference (h : Release.IsChronological rs) {r : Release} (hr : r ∈ rs) :
    ∃ s, ((c.difference rs).apply c).get? r.id = some s ∧
      s.updatedAt.isBefore r.updatedAt = false := by
  obtain ⟨s, hs⟩ := Option.isSome_iff_exists.1 (Release.isSome_current? c.get? hr)
  refine ⟨s, ?_, h.isBefore_of_current? hs hr⟩
  rw [get?_apply_difference, if_pos ⟨r, hr, rfl⟩, hs]

/-- A catalog that has the ids of the list, each with a copy that is not older, needs no change. -/
theorem isEmpty_difference
    (hcurrent : ∀ r ∈ rs, ∃ s, c.get? r.id = some s ∧ s.updatedAt.isBefore r.updatedAt = false)
    (hids : ∀ id, c.contains id = true → ∃ r ∈ rs, r.id = id) :
    (c.difference rs).isEmpty = true := by
  have hupserts : (c.difference rs).upserts = [] := by
    rw [difference, isOutdatedFor_eq, List.filter_eq_nil_iff]
    intro r hr
    rw [Release.isOutdatedIn_eq_false.2 (hcurrent r hr)]
    exact Bool.false_ne_true
  have hremovals : (c.difference rs).removals = [] := by
    rw [List.eq_nil_iff_forall_not_mem]
    intro id hid
    obtain ⟨hc, habsent⟩ := mem_removals.1 hid
    obtain ⟨r, hr, he⟩ := hids id hc
    exact habsent r hr he
  rw [Difference.isEmpty, hupserts, hremovals]
  rfl

/-- The difference between a catalog and a list puts in the releases that are new or newer, in the
order of the list, and takes out the ids that the list lacks. Applied, it leaves the ids of the list
and touches nothing else; and if no copy in the list comes after a newer one, then each is held by a
copy that is not older, and nothing is left to change. -/
theorem difference_converges (c : Catalog) (rs : List Release) :
    let d := c.difference rs
    let c' := d.apply c
    d.upserts.Sublist rs ∧
    (∀ r, r ∈ d.upserts ↔
      r ∈ rs ∧ ∀ s, c.get? r.id = some s → s.updatedAt.isBefore r.updatedAt = true) ∧
    d.removals.Pairwise (· < ·) ∧
    (∀ id, id ∈ d.removals ↔ c.contains id = true ∧ ∀ r ∈ rs, r.id ≠ id) ∧
    (∀ id, c'.contains id = true ↔ ∃ r ∈ rs, r.id = id) ∧
    (∀ id, (∀ r ∈ d.upserts, r.id ≠ id) → id ∉ d.removals → c'.get? id = c.get? id) ∧
    (Release.IsChronological rs →
      (∀ r ∈ rs, ∃ s, c'.get? r.id = some s ∧ s.updatedAt.isBefore r.updatedAt = false) ∧
      (c'.difference rs).isEmpty = true) := by
  refine ⟨List.filter_sublist, fun r => ?_, c.pairwise_removals rs, fun id => mem_removals,
    fun id => contains_apply_difference, fun id => get?_apply_difference_of_untouched,
    fun h => ⟨fun r hr => exists_get?_apply_difference h hr, ?_⟩⟩
  · rw [difference, isOutdatedFor_eq, List.mem_filter, Release.isOutdatedIn, Option.all_eq_true]
  · exact isEmpty_difference (fun r hr => exists_get?_apply_difference h hr)
      fun id => contains_apply_difference.1

/-- Holds a release that `laterList` has an older copy of, and one that it lacks. -/
def beforeList : Catalog :=
  .ofReleases [.plain "held" 11 (.atSecond 5), .plain "gone" 11 (.atSecond 1)]

/-- A list in which a new release comes twice, the newer copy last. -/
def laterList : List Release :=
  [.plain "new" 8 (.atSecond 1), .plain "held" 11 (.atSecond 3), .plain "new" 8 (.atSecond 2)]

theorem difference_converges_laterList :
    Release.IsChronological laterList ∧
    (beforeList.difference laterList).upserts.map (·.id) = ["new", "new"] ∧
    (beforeList.difference laterList).removals = ["gone"] ∧
    (∀ r ∈ laterList, ∃ s, ((beforeList.difference laterList).apply beforeList).get? r.id = some s ∧
      s.updatedAt.isBefore r.updatedAt = false) ∧
    (((beforeList.difference laterList).apply beforeList).difference laterList).isEmpty = true := by
  have h : Release.IsChronological laterList := by decide
  obtain ⟨-, -, -, -, -, -, hconverges⟩ := difference_converges beforeList laterList
  exact ⟨h, by decide +kernel, by decide +kernel, hconverges h⟩

end Catalog

end ReleaseCatalog

import Mathlib.Algebra.Order.Floor.Div
import ReleaseCatalog.CommandLine.Run
import ReleaseCatalog.Proofs.Catalog.Restriction

namespace ReleaseCatalog

section Page

variable {α : Type} {size m n : UInt64} {xs : List α}

/-- The bound of 64 bits on where a page begins makes no difference to what is on it. -/
theorem page_eq (h : xs.length < UInt64.size) :
    page n size xs = (xs.drop (n.toNat * size.toNat)).take size.toNat := by
  rw [page]
  by_cases hn : n.toNat * size.toNat ≤ UInt64.size - 1
  · rw [Nat.min_eq_left hn]
  · rw [Nat.min_eq_right (by omega), List.drop_eq_nil_of_le (by omega),
      List.drop_eq_nil_of_le (by omega)]

theorem length_page (h : xs.length < UInt64.size) :
    (page n size xs).length = min size.toNat (xs.length - n.toNat * size.toNat) := by
  rw [page_eq h, List.length_take, List.length_drop]

theorem flatMap_range_take_drop (xs : List α) (size count : Nat) :
    (List.range count).flatMap (fun i => (xs.drop (i * size)).take size) =
      xs.take (count * size) := by
  induction count with
  | zero => rw [Nat.zero_mul, List.take_zero, List.range_zero, List.flatMap_nil]
  | succ count ih =>
    rw [List.range_succ, List.flatMap_append, ih, List.flatMap_singleton, Nat.succ_mul,
      List.take_add]

/-- How many pages of a size a list fills, the last perhaps only in part. -/
def pageCount (size : UInt64) (xs : List α) : Nat := xs.length ⌈/⌉ size.toNat

theorem pageCount_le_iff (hsize : 0 < size.toNat) {count : Nat} :
    pageCount size xs ≤ count ↔ xs.length ≤ size.toNat * count :=
  ceilDiv_le_iff_le_mul hsize

theorem flatMap_page (hsize : 0 < size.toNat) (h : xs.length < UInt64.size) :
    (List.range (pageCount size xs)).flatMap (fun i => page (UInt64.ofNat i) size xs) = xs := by
  have hlength : xs.length ≤ size.toNat * pageCount size xs :=
    (pageCount_le_iff hsize).1 (Nat.le_refl _)
  have hcount : pageCount size xs ≤ xs.length :=
    (pageCount_le_iff hsize).2 (Nat.le_mul_of_pos_left _ hsize)
  -- there are no more pages than elements, so the number of a page is a word
  have hpages : ∀ i ∈ List.range (pageCount size xs),
      page (UInt64.ofNat i) size xs = (xs.drop (i * size.toNat)).take size.toNat := by
    intro i hi
    have hlt : i < UInt64.size :=
      Nat.lt_trans (Nat.lt_of_lt_of_le (List.mem_range.1 hi) hcount) h
    rw [page_eq h, UInt64.toNat_ofNat_of_lt' hlt]
  rw [List.flatMap_congr hpages, flatMap_range_take_drop, Nat.mul_comm,
    List.take_of_length_le hlength]

theorem length_page_of_lt (hsize : 0 < size.toNat) (h : xs.length < UInt64.size)
    (hn : n.toNat + 1 < pageCount size xs) : (page n size xs).length = size.toNat := by
  have hmore : size.toNat * (n.toNat + 1) < xs.length :=
    Nat.lt_of_not_le fun hle => Nat.not_le_of_lt hn ((pageCount_le_iff hsize).2 hle)
  rw [Nat.mul_succ, Nat.mul_comm] at hmore
  rw [length_page h, Nat.min_eq_left (by omega)]

theorem page_eq_nil_iff (hsize : 0 < size.toNat) (h : xs.length < UInt64.size) :
    page n size xs = [] ↔ pageCount size xs ≤ n.toNat := by
  rw [← List.length_eq_zero_iff, length_page h, pageCount_le_iff hsize, Nat.mul_comm]
  omega

theorem rel_of_mem_page {r : α → α → Prop} (hr : xs.Pairwise r) (h : xs.length < UInt64.size)
    (hmn : m < n) {x y : α} (hx : x ∈ page m size xs) (hy : y ∈ page n size xs) : r x y := by
  have hle : (m.toNat + 1) * size.toNat ≤ n.toNat * size.toNat :=
    Nat.mul_le_mul_right _ (UInt64.lt_iff_toNat_lt.1 hmn)
  rw [Nat.succ_mul] at hle
  rw [page_eq h] at hx hy
  rw [List.take_drop] at hx
  have hbefore : x ∈ xs.take (n.toNat * size.toNat) :=
    List.take_subset_take_left xs hle (List.mem_of_mem_drop hx)
  have hfrom : y ∈ xs.drop (n.toNat * size.toNat) := List.mem_of_mem_take hy
  rw [← List.take_append_drop (n.toNat * size.toNat) xs] at hr
  exact (List.pairwise_append.1 hr).2.2 x hbefore y hfrom

end Page

namespace CommandLine.Query

/-- The query that asks for another page. -/
def onPage (q : Query) (number : UInt64) : Query := { q with page := number }

variable {q : Query} {criteria : ReleaseCriteria} {s : Snapshot}

theorem results_onPage (q : Query) (criteria : ReleaseCriteria) (s : Snapshot) (number : UInt64) :
    (q.onPage number).results criteria s =
      ReleaseCatalog.page number q.pageSize (s.query criteria q.binary q.direction q.method) := rfl

theorem id_ne_of_results {m n : UInt64} (hmn : m ≠ n)
    (h : (s.query criteria q.binary q.direction q.method).length < UInt64.size) {r t : Release}
    (hr : r ∈ (q.onPage m).results criteria s) (ht : t ∈ (q.onPage n).results criteria s) :
    r.id ≠ t.id := by
  have hids : (s.query criteria q.binary q.direction q.method).Pairwise fun r t => r.id ≠ t.id :=
    List.pairwise_map.1 (s.nodup_ids_query criteria q.binary q.direction q.method)
  rw [results_onPage] at hr ht
  rcases UInt64.lt_or_lt_of_ne hmn with hlt | hlt
  · exact rel_of_mem_page hids h hlt hr ht
  · exact (rel_of_mem_page hids h hlt ht hr).symm

/-- The pages of a query, one after another, are all that it finds, provided that this can be
counted in 64 bits. All pages but the last are full, and the last is not empty; no id is on two
pages; and all later pages are empty, also where the count of what comes before them does not fit
64 bits. -/
theorem results_partition (q : Query) (criteria : ReleaseCriteria) (s : Snapshot)
    (hsize : 1 ≤ q.pageSize)
    (hcount : (s.query criteria q.binary q.direction q.method).length < UInt64.size) :
    let found := s.query criteria q.binary q.direction q.method
    let pages := pageCount q.pageSize found
    (List.range pages).flatMap (fun i => (q.onPage (.ofNat i)).results criteria s) = found ∧
    (∀ n : UInt64, n.toNat + 1 < pages →
      ((q.onPage n).results criteria s).length = q.pageSize.toNat) ∧
    (∀ m n : UInt64, m ≠ n → ∀ r ∈ (q.onPage m).results criteria s,
      ∀ t ∈ (q.onPage n).results criteria s, r.id ≠ t.id) ∧
    ∀ n : UInt64, (q.onPage n).results criteria s = [] ↔ pages ≤ n.toNat := by
  have hpos : 0 < q.pageSize.toNat := UInt64.le_iff_toNat_le.1 hsize
  refine ⟨flatMap_page hpos hcount, fun n hn => length_page_of_lt hpos hcount hn,
    fun m n hmn r hr t ht => id_ne_of_results hmn hcount hr ht, fun n => ?_⟩
  exact page_eq_nil_iff hpos hcount

/-- A query for pages of two releases. -/
def byTwo : Query := { pageSize := 2 }

theorem results_partition_byTwo :
    1 ≤ byTwo.pageSize ∧
    (Snapshot.twoLines.query {} {} .descending .byVersion).length < UInt64.size ∧
    ((byTwo.onPage 0).results {} Snapshot.twoLines).map (·.id) = ["c", "a"] ∧
    ((byTwo.onPage 1).results {} Snapshot.twoLines).map (·.id) = ["b"] ∧
    (List.range 2).flatMap (fun i => (byTwo.onPage (.ofNat i)).results {} Snapshot.twoLines) =
      Snapshot.twoLines.query {} {} .descending .byVersion ∧
    (byTwo.onPage 0xffffffffffffffff).results {} Snapshot.twoLines = [] := by
  have hsize : 1 ≤ byTwo.pageSize := by decide
  have hcount : (Snapshot.twoLines.query {} {} .descending .byVersion).length < UInt64.size := by
    decide +kernel
  have hpages : pageCount byTwo.pageSize
      (Snapshot.twoLines.query {} byTwo.binary byTwo.direction byTwo.method) = 2 := by
    decide +kernel
  obtain ⟨hall, -, -, hempty⟩ := results_partition byTwo {} Snapshot.twoLines hsize hcount
  rw [hpages] at hall hempty
  exact ⟨hsize, hcount, by decide +kernel, by decide +kernel, hall, (hempty _).2 (by decide)⟩

end CommandLine.Query

end ReleaseCatalog

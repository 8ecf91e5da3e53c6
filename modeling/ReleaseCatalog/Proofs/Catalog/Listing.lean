import Mathlib.Data.List.Perm.Subperm
import ReleaseCatalog.Catalog.Basic

namespace ReleaseCatalog

namespace SortMethod

variable {method : SortMethod} {r s : Release} {rs : List Release}

theorem id_eq_of_compare (h : method.compare r s = .eq) : r.id = s.id := by
  have hid : compareOn (·.id) r s = .eq := by
    cases method with
    | byVersion =>
      simp only [compare, Release.compareByVersion, compareLex_eq_eq] at h
      exact h.2.2.2
    | byTime =>
      simp only [compare, Release.compareByTime, compareLex_eq_eq] at h
      exact h.2.2.2
  exact Std.LawfulEqCmp.eq_of_compare hid

theorem distinct_of_ids (h : rs.Pairwise fun r s => r.id ≠ s.id) :
    rs.Pairwise fun r s => ¬method.compare r s = .eq :=
  h.imp fun hne he => hne (id_eq_of_compare he)

theorem mem_arrange (h : rs.Pairwise fun r s => r.id ≠ s.id) (hr : r ∈ rs) :
    r ∈ (method.arrange rs).toList := by
  have hget : (method.arrange rs).get? r = some r :=
    Std.ExtTreeSet.get?_ofList_of_mem Std.ReflCmp.compare_self (distinct_of_ids h) hr
  have hkey : (method.arrange rs).inner.getKey? r = some r := hget
  have hmem : r ∈ (method.arrange rs).inner := Std.ExtTreeMap.mem_of_getKey?_eq_some hkey
  have hval : (method.arrange rs).inner[r]? = some () := by
    rw [Std.ExtTreeMap.getElem?_eq_some_getElem hmem]
  have hpair : (r, ()) ∈ (method.arrange rs).inner.toList :=
    Std.ExtTreeMap.mem_toList_iff_getKey?_eq_some_and_getElem?_eq_some.2 ⟨hkey, hval⟩
  have hfst := List.mem_map_of_mem (f := Prod.fst) hpair
  rw [Std.ExtTreeMap.map_fst_toList_eq_keys] at hfst
  exact hfst

theorem nodup_of_ids (h : rs.Pairwise fun r s => r.id ≠ s.id) : rs.Nodup :=
  h.imp fun {_ _} hne he => hne (congrArg Release.id he)

/-- Releases with ids of their own all find a place in the set. -/
theorem arrange_perm (h : rs.Pairwise fun r s => r.id ≠ s.id) :
    (method.arrange rs).toList.Perm rs := by
  have hsub : rs.Subperm (method.arrange rs).toList :=
    List.subperm_of_subset (nodup_of_ids h) fun _ hr => mem_arrange h hr
  have hlength : (method.arrange rs).toList.length = rs.length := by
    rw [Std.ExtTreeSet.length_toList]
    exact Std.ExtTreeSet.size_ofList (distinct_of_ids h)
  exact (hsub.perm_of_length_le (Nat.le_of_eq hlength)).symm

end SortMethod

namespace Catalog

theorem ordered_ascending (c : Catalog) (method : SortMethod) :
    c.ordered .ascending method = (method.arrange c.releases).toList := by
  cases method with
  | byVersion => exact congrArg Std.ExtTreeSet.toList c.byVersion_eq
  | byTime => exact congrArg Std.ExtTreeSet.toList c.byTime_eq

theorem ordered_descending (c : Catalog) (method : SortMethod) :
    c.ordered .descending method = (c.ordered .ascending method).reverse := by
  cases method <;> rfl

theorem pairwise_ids_ne (c : Catalog) : c.releases.Pairwise fun r s => r.id ≠ s.id := by
  refine c.pairwise_releases.imp fun {r s} hlt he => ?_
  rw [he] at hlt
  exact absurd hlt (by simp)

theorem ordered_perm (c : Catalog) (direction : Direction) (method : SortMethod) :
    (c.ordered direction method).Perm c.releases := by
  have h : (c.ordered .ascending method).Perm c.releases := by
    rw [ordered_ascending]
    exact SortMethod.arrange_perm c.pairwise_ids_ne
  cases direction with
  | ascending => exact h
  | descending =>
    rw [ordered_descending]
    exact (List.reverse_perm _).trans h

theorem pairwise_ordered (c : Catalog) (method : SortMethod) :
    (c.ordered .ascending method).Pairwise fun r s => method.compare r s = .lt := by
  rw [ordered_ascending]
  exact Std.ExtTreeSet.ordered_toList

theorem mem_ordered {c : Catalog} {direction : Direction} {method : SortMethod} {r : Release} :
    r ∈ c.ordered direction method ↔ c.get? r.id = some r := by
  rw [(c.ordered_perm direction method).mem_iff, mem_releases]

theorem nodup_ordered (c : Catalog) (direction : Direction) (method : SortMethod) :
    (c.ordered direction method).Nodup := by
  rw [(c.ordered_perm direction method).nodup_iff]
  exact SortMethod.nodup_of_ids c.pairwise_ids_ne

theorem length_ordered (c : Catalog) (direction : Direction) (method : SortMethod) :
    (c.ordered direction method).length = c.size := by
  rw [(c.ordered_perm direction method).length_eq, length_releases]

/-- What can be done to a catalog. -/
inductive Edit where
  /-- Starts anew from a list of releases. -/
  | ofReleases (rs : List Release)
  | insertAll (rs : List Release)
  | erase (id : String)
  | retain (ids : List String)
  | narrow (keep : Binary → Bool)

def Edit.apply : Edit → Catalog → Catalog
  | .ofReleases rs, _ => Catalog.ofReleases rs
  | .insertAll rs, c => c.insertAll rs
  | .erase id, c => c.erase id
  | .retain ids, c => c.retain ids
  | .narrow keep, c => c.narrow keep

/-- The catalog that a history of edits leaves, from the empty one on. -/
def after (es : List Edit) : Catalog := es.foldl (fun c e => e.apply c) empty

/-- After any history of edits each release is kept under its own id, and each method lists every
release once and nothing else, strictly ascending or in reverse. Histories that lead to the same
releases lead to the same listings. -/
theorem listings_after (es : List Edit) :
    (∀ id r, (after es).get? id = some r → r.id = id) ∧
    (∀ method : SortMethod,
      (∀ r, r ∈ (after es).ordered .ascending method ↔ (after es).get? r.id = some r) ∧
      ((after es).ordered .ascending method).Nodup ∧
      ((after es).ordered .ascending method).Pairwise (fun r s => method.compare r s = .lt) ∧
      (after es).ordered .descending method = ((after es).ordered .ascending method).reverse) ∧
    (∀ direction method, ((after es).ordered direction method).length = (after es).size ∧
      ∀ direction' method',
        ((after es).ordered direction method).Perm ((after es).ordered direction' method')) ∧
    ∀ fs : List Edit, (∀ id, (after es).get? id = (after fs).get? id) →
      ∀ direction method, (after es).ordered direction method = (after fs).ordered direction method := by
  refine ⟨fun id r h => id_of_get? h, fun method => ?_, fun direction method => ?_, ?_⟩
  · exact ⟨fun r => mem_ordered, nodup_ordered _ _ _, pairwise_ordered _ _, ordered_descending _ _⟩
  · refine ⟨length_ordered _ _ _, fun direction' method' => ?_⟩
    exact (ordered_perm _ direction method).trans (ordered_perm _ direction' method').symm
  · intro fs h direction method
    rw [Catalog.ext h]

end Catalog

end ReleaseCatalog

import ReleaseCatalog.Proofs.Catalog.Restriction

namespace ReleaseCatalog

namespace Catalog

variable {c d : Catalog} {r s : Release} {rs ss : List Release}

/-- Two catalogs hold the same releases and list them alike. -/
structure Agrees (c d : Catalog) : Prop where
  get?_eq : ∀ id, c.get? id = d.get? id
  ordered_eq : ∀ direction method, c.ordered direction method = d.ordered direction method

theorem Agrees.of_eq (h : c = d) : Agrees c d where
  get?_eq id := by rw [h]
  ordered_eq direction method := by rw [h]

theorem insertAll_eq_foldl (c : Catalog) (rs : List Release) :
    c.insertAll rs = rs.foldl insert c := by
  induction rs generalizing c with
  | nil => rw [insertAll_nil, List.foldl_nil]
  | cons r rs ih => rw [insertAll_cons, List.foldl_cons, ih]

theorem insert_comm (c : Catalog) (h : r.id ≠ s.id) :
    (c.insert r).insert s = (c.insert s).insert r := by
  ext1 id
  simp only [get?_insert]
  by_cases hs : s.id = id
  · have hr : r.id ≠ id := fun hr => h (hr.trans hs.symm)
    rw [if_pos hs, if_neg hr, if_pos hs]
  · rw [if_neg hs, if_neg hs]

theorem insertAll_perm (c : Catalog) (hperm : rs.Perm ss) (hids : (rs.map (·.id)).Nodup) :
    c.insertAll rs = c.insertAll ss := by
  rw [insertAll_eq_foldl, insertAll_eq_foldl]
  apply hperm.foldl_eq'
  intro r hr s hs d
  -- two insertions commute: those of one id insert one release
  by_cases hid : r.id = s.id
  · rw [List.inj_on_of_nodup_map hids hr hs hid]
  · exact d.insert_comm hid

theorem erase_eq_retain (c : Catalog) (id : String) :
    c.erase id = c.retain (c.ids.filter (· != id)) := by
  ext1 id'
  rw [get?_erase, get?_retain]
  by_cases hid : id = id'
  · rw [if_pos hid, if_neg]
    intro hmem
    simp [hid] at hmem
  · rw [if_neg hid]
    cases hr : c.get? id' with
    | none => rw [ite_self]
    | some r =>
      have hmem : id' ∈ c.ids := by
        rw [mem_ids, contains_eq_isSome, hr]
        rfl
      have hne : (id' != id) = true := bne_iff_ne.2 (Ne.symm hid)
      rw [if_pos (List.mem_filter.2 ⟨hmem, hne⟩)]

theorem retain_retain (c : Catalog) (ids ids' : List String) :
    (c.retain ids).retain ids' = c.retain (ids ∩ ids') := by
  ext1 id
  rw [get?_retain, get?_retain, get?_retain, ← ite_and]
  simp only [List.mem_inter_iff, and_comm]

theorem erase_insert (h : c.contains r.id = false) : (c.insert r).erase r.id = c := by
  rw [contains_eq_isSome, Option.isSome_eq_false_iff, Option.isNone_iff_eq_none] at h
  ext1 id
  rw [get?_erase, get?_insert]
  by_cases hid : r.id = id
  · rw [if_pos hid, ← hid, h]
  · rw [if_neg hid, if_neg hid]

theorem ordered_retain (c : Catalog) (ids : List String) (direction : Direction)
    (method : SortMethod) :
    (c.retain ids).ordered direction method =
      (c.ordered direction method).filter fun r => ids.contains r.id := by
  apply ordered_eq_filter
  intro r
  rw [get?_retain, List.contains_iff_mem]
  by_cases hid : r.id ∈ ids <;> simp [hid]

theorem ordered_erase (c : Catalog) (id : String) (direction : Direction) (method : SortMethod) :
    (c.erase id).ordered direction method = (c.ordered direction method).filter (·.id != id) := by
  apply ordered_eq_filter
  intro r
  rw [get?_erase, bne_iff_ne]
  by_cases hid : id = r.id <;> simp [hid, Ne.symm]

/-- A release that is replaced is listed no more: under each id that goes in, the last release of
the id is, and under all others what was before. -/
theorem mem_ordered_insertAll {direction : Direction} {method : SortMethod} :
    r ∈ (c.insertAll rs).ordered direction method ↔
      rs.reverse.find? (·.id == r.id) = some r ∨
        (∀ s ∈ rs, s.id ≠ r.id) ∧ r ∈ c.ordered direction method := by
  rw [mem_ordered, get?_insertAll, Option.or_eq_some_iff, List.find?_eq_none, mem_ordered]
  simp only [List.mem_reverse, beq_iff_eq]

/-- Of the releases of a list that goes in, the last of each id is held, and what the list lacks
stays. One list after another is both in one, the order of releases with ids of their own makes no
difference, erasing is retaining all other ids, retaining twice is retaining what is in both lists,
and a new release that is taken out again leaves what was before; all this in the listings too, in
which what stays keeps its order. -/
theorem updates_agree (c : Catalog) :
    (∀ rs id, (c.insertAll rs).get? id = (rs.reverse.find? (·.id == id)).or (c.get? id)) ∧
    (∀ rs direction method r, r ∈ (c.insertAll rs).ordered direction method ↔
      rs.reverse.find? (·.id == r.id) = some r ∨
        (∀ s ∈ rs, s.id ≠ r.id) ∧ r ∈ c.ordered direction method) ∧
    (∀ rs ss, Agrees (ofReleases (rs ++ ss)) ((ofReleases rs).insertAll ss)) ∧
    (∀ rs ss : List Release, rs.Perm ss → (rs.map (·.id)).Nodup →
      Agrees (ofReleases rs) (ofReleases ss) ∧ Agrees (c.insertAll rs) (c.insertAll ss)) ∧
    (∀ id, Agrees (c.erase id) (c.retain (c.ids.filter (· != id))) ∧
      ∀ direction method, (c.erase id).ordered direction method =
        (c.ordered direction method).filter (·.id != id)) ∧
    (∀ ids ids', Agrees ((c.retain ids).retain ids') (c.retain (ids ∩ ids')) ∧
      ∀ direction method, (c.retain ids).ordered direction method =
        (c.ordered direction method).filter fun r => ids.contains r.id) ∧
    ∀ r : Release, c.contains r.id = false → Agrees ((c.insertAll [r]).erase r.id) c := by
  refine ⟨c.get?_insertAll, fun rs direction method r => mem_ordered_insertAll,
    fun rs ss => .of_eq (insertAll_append _ rs ss), fun rs ss hperm hids => ?_, fun id => ?_,
    fun ids ids' => ?_, fun r hr => ?_⟩
  · exact ⟨.of_eq (insertAll_perm _ hperm hids), .of_eq (insertAll_perm _ hperm hids)⟩
  · exact ⟨.of_eq (c.erase_eq_retain id), c.ordered_erase id⟩
  · exact ⟨.of_eq (c.retain_retain ids ids'), c.ordered_retain ids⟩
  · rw [insertAll_cons, insertAll_nil]
    exact .of_eq (erase_insert hr)

/-- Holds a release that `reordered` replaces, and one that it lacks. -/
def beforeUpdates : Catalog := .ofReleases [.single "replaced" 11, .single "kept" 17]

/-- Two releases, of which the first replaces one by a release of another version. -/
def reordered : List Release := [.single "replaced" 21, .single "added" 8]

theorem updates_agree_reordered :
    reordered.Perm reordered.reverse ∧ (reordered.map (·.id)).Nodup ∧
    Agrees (beforeUpdates.insertAll reordered) (beforeUpdates.insertAll reordered.reverse) ∧
    (beforeUpdates.ordered .ascending .byVersion).map (·.id) = ["replaced", "kept"] ∧
    ((beforeUpdates.insertAll reordered).ordered .ascending .byVersion).map (·.id) =
      ["added", "kept", "replaced"] ∧
    beforeUpdates.contains "new" = false ∧
    Agrees ((beforeUpdates.insertAll [.single "new" 9]).erase "new") beforeUpdates := by
  have hperm : reordered.Perm reordered.reverse := (List.reverse_perm reordered).symm
  have hids : (reordered.map (·.id)).Nodup := by decide
  have hnew : beforeUpdates.contains "new" = false := by decide +kernel
  obtain ⟨-, -, -, hreordered, -, -, hundone⟩ := updates_agree beforeUpdates
  exact ⟨hperm, hids, (hreordered _ _ hperm hids).2, by decide +kernel, by decide +kernel, hnew,
    hundone (.single "new" 9) hnew⟩

end Catalog

end ReleaseCatalog

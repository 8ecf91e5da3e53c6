import ReleaseCatalog.Proofs.Catalog.Query

namespace ReleaseCatalog

namespace Release

theorem withBinaries_withBinaries (p q : Binary → Bool) (r : Release) :
    (r.withBinaries p).withBinaries q = r.withBinaries fun x => p x && q x := by
  rw [withBinaries, withBinaries, withBinaries, List.filter_filter]
  congr 2
  funext x
  exact Bool.and_comm (q x) (p x)

/-- A release that one narrowing leaves nothing of is left nothing of by both together. -/
theorem narrow?_bind_narrow? (p q : Binary → Bool) (r : Release) :
    (r.narrow? p).bind (·.narrow? q) = r.narrow? fun x => p x && q x := by
  ext1 n
  simp only [Option.bind_eq_some_iff, narrow?_eq_some]
  constructor
  · rintro ⟨m, ⟨-, rfl⟩, ⟨x, hx, hq⟩, rfl⟩
    obtain ⟨hmem, hp⟩ := List.mem_filter.1 hx
    exact ⟨⟨x, hmem, by rw [hp, hq]; rfl⟩, withBinaries_withBinaries p q r⟩
  · rintro ⟨⟨x, hx, hpq⟩, rfl⟩
    obtain ⟨hp, hq⟩ := Bool.and_eq_true_iff.1 hpq
    have hleft : x ∈ (r.withBinaries p).binaries := List.mem_filter.2 ⟨hx, hp⟩
    exact ⟨_, ⟨⟨x, hx, hp⟩, rfl⟩, ⟨x, hleft, hq⟩, (withBinaries_withBinaries p q r).symm⟩

theorem narrow?_eq_self {keep : Binary → Bool} {r : Release} :
    r.narrow? keep = some r ↔ r.binaries ≠ [] ∧ ∀ x ∈ r.binaries, keep x = true := by
  rw [narrow?_eq_some]
  constructor
  · rintro ⟨⟨x, hx, -⟩, hr⟩
    have hfilter : r.binaries = r.binaries.filter keep := congrArg Release.binaries hr
    exact ⟨List.ne_nil_of_mem hx, List.filter_eq_self.1 hfilter.symm⟩
  · rintro ⟨hne, hall⟩
    obtain ⟨x, hx⟩ := List.exists_mem_of_ne_nil _ hne
    exact ⟨⟨x, hx, hall x hx⟩, (withBinaries_eq_self (List.all_eq_true.2 hall)).symm⟩

theorem filterMap_narrow? (keep : Binary → Bool) (rs : List Release) :
    rs.filterMap (·.narrow? keep) =
      (rs.filter (·.binaries.any keep)).map (withBinaries keep) := by
  induction rs with
  | nil => rfl
  | cons r rs ih =>
    rw [List.filterMap_cons, List.filter_cons, narrow?_eq, ih]
    split
    · next hnone =>
      split at hnone
      · cases hnone
      · next hany => rw [if_neg hany]
    · next n hsome =>
      split at hsome
      · next hany =>
        cases hsome
        rw [if_pos hany, List.map_cons]
      · cases hsome

end Release

namespace Catalog

theorem narrow_narrow (c : Catalog) (p q : Binary → Bool) :
    (c.narrow p).narrow q = c.narrow fun x => p x && q x := by
  ext1 id
  rw [get?_narrow, get?_narrow, get?_narrow, Option.bind_assoc]
  congr 1
  funext r
  exact r.narrow?_bind_narrow? p q

theorem narrow_comm (c : Catalog) (p q : Binary → Bool) :
    (c.narrow p).narrow q = (c.narrow q).narrow p := by
  rw [narrow_narrow, narrow_narrow]
  congr 1
  funext x
  exact Bool.and_comm (p x) (q x)

theorem narrow_self (c : Catalog) (keep : Binary → Bool) :
    (c.narrow keep).narrow keep = c.narrow keep := by
  rw [narrow_narrow]
  congr 1
  funext x
  exact Bool.and_self (keep x)

theorem retain_narrow (c : Catalog) (keep : Binary → Bool) (ids : List String) :
    (c.narrow keep).retain ids = (c.retain ids).narrow keep := by
  ext1 id
  rw [get?_retain, get?_narrow, get?_narrow, get?_retain]
  split <;> rfl

theorem erase_narrow (c : Catalog) (keep : Binary → Bool) (id : String) :
    (c.narrow keep).erase id = (c.erase id).narrow keep := by
  ext1 id'
  rw [get?_erase, get?_narrow, get?_narrow, get?_erase]
  split <;> rfl

/-- A narrowed catalog holds the releases with a binary that is accepted, each with those of its
binaries that are, in their order; it holds a release as it was where all of them are. It is listed
as the catalog before it. Two narrowings make one, in any order, and one makes no difference to
which releases are retained or erased. -/
theorem narrow_exact (c : Catalog) (p q : Binary → Bool) :
    (∀ id n, (c.narrow p).get? id = some n ↔
      ∃ r, c.get? id = some r ∧ (∃ x ∈ r.binaries, p x = true) ∧
        n = { r with binaries := r.binaries.filter p }) ∧
    (∀ id r, c.get? id = some r ∧ (c.narrow p).get? id = some r ↔
      c.get? id = some r ∧ r.binaries ≠ [] ∧ ∀ x ∈ r.binaries, p x = true) ∧
    (∀ direction method, (c.narrow p).ordered direction method =
      ((c.ordered direction method).filter (·.binaries.any p)).map fun r =>
        { r with binaries := r.binaries.filter p }) ∧
    ((c.narrow p).narrow q = c.narrow (fun x => p x && q x) ∧
      ∀ direction method, ((c.narrow p).narrow q).ordered direction method =
        (c.narrow fun x => p x && q x).ordered direction method) ∧
    (c.narrow p).narrow q = (c.narrow q).narrow p ∧
    (c.narrow p).narrow p = c.narrow p ∧
    (∀ ids, (c.narrow p).retain ids = (c.retain ids).narrow p) ∧
    ∀ id, (c.narrow p).erase id = (c.erase id).narrow p := by
  have hfuse := c.narrow_narrow p q
  refine ⟨fun id n => ?_, fun id r => and_congr_right fun hr => ?_, fun direction method => ?_,
    ⟨hfuse, fun direction method => by rw [hfuse]⟩, c.narrow_comm p q, c.narrow_self p,
    c.retain_narrow p, c.erase_narrow p⟩
  · simp only [get?_narrow_eq_some, Release.narrow?_eq_some]
    rfl
  · rw [get?_narrow, hr, Option.bind_some, Release.narrow?_eq_self]
  · rw [ordered_narrow, Release.filterMap_narrow?]
    rfl

end Catalog

end ReleaseCatalog

import ReleaseCatalog.Proofs.Archive.Refinement
import ReleaseCatalog.Proofs.Refresh.FailSoft
import ReleaseCatalog.Settings

namespace ReleaseCatalog

namespace Snapshot

theorem mem_featureVersions {s : Snapshot} {f : UInt32} :
    f ∈ s.featureVersions ↔ ∃ l, s.line? f = some l := by
  rw [featureVersions, Std.ExtTreeMap.mem_keys, Std.ExtTreeMap.mem_iff_isSome_getElem?,
    Option.isSome_iff_exists, line?]

theorem pairwise_featureVersions (s : Snapshot) : s.featureVersions.Pairwise (· < ·) :=
  Std.ExtTreeMap.ordered_keys.imp Std.compare_eq_lt.1

end Snapshot

namespace Archive

variable {a : Archive}

theorem IsSound.source_eq (h : a.IsSound) (f : UInt32) :
    (∃ l id r, a.source f = .ok l ∧ a.holdings.line f id = some r ∧
      ∀ id, l.releases.get? id = a.holdings.line f id) ∨
    a.source f = .error (.notFound f) ∧ ∀ id, a.holdings.line f id = none := by
  by_cases hl : ∀ id, a.holdings.line f id = none
  · refine .inr ⟨?_, hl⟩
    rw [source, h.read_of_none hl]
    rfl
  · obtain ⟨id, hid⟩ := not_forall.1 hl
    obtain ⟨r, hr⟩ := Option.ne_none_iff_exists'.1 hid
    obtain ⟨c, hc, hget⟩ := h.read_of_line hr
    refine .inl ⟨⟨f, c⟩, id, r, ?_, hr, hget⟩
    rw [source, hc]
    rfl

theorem IsSound.not_readFault (h : a.IsSound) (f : UInt32) (e : RefreshError) :
    ¬ ReadFault f (a.source f) e := by
  intro he
  rcases Line.exists_readFault_iff.1 ⟨e, he⟩ with ⟨cause, hcause, hne⟩ | ⟨l, id, r, hl, hr, hne⟩
  · obtain ⟨l, -, -, hl, -⟩ | ⟨hn, -⟩ := h.source_eq f
    · rw [hl] at hcause
      cases hcause
    · rw [hn] at hcause
      cases hcause
      exact hne f rfl
  · obtain ⟨l', -, -, hl', -, hget⟩ | ⟨hn, -⟩ := h.source_eq f
    · obtain rfl : l' = l := Except.ok.inj (hl'.symm.trans hl)
      rw [hget] at hr
      obtain ⟨-, -, hf⟩ := Holdings.line_eq_some.1 hr
      exact hne hf
    · rw [hn] at hl
      cases hl

end Archive

namespace Cycle

section Source

variable {source : Source} {c : Cycle}

theorem mem_lines_of_source (hc : ∀ i, c.answer i = source) {f : UInt32} {l : Line} :
    l ∈ c.lines ∧ l.featureVersion = f ↔
      f ∈ c.featureVersions ∧ Line.answered? f (source f) = some l := by
  rw [mem_lines, List.mem_iff_getElem?]
  constructor
  · rintro ⟨⟨i, g, hg, hl⟩, rfl⟩
    obtain rfl := Line.featureVersion_of_answered? hl
    exact ⟨⟨i, hg⟩, hc i ▸ hl⟩
  · rintro ⟨⟨i, hf⟩, hl⟩
    exact ⟨⟨i, f, hf, hc i ▸ hl⟩, Line.featureVersion_of_answered? hl⟩

theorem line?_ofLines_lines (hc : ∀ i, c.answer i = source) (f : UInt32) :
    (Snapshot.ofLines c.lines).line? f =
      if f ∈ c.featureVersions then Line.answered? f (source f) else none := by
  -- The last of the lines of `f` counts, and all of them are alike.
  rw [Snapshot.line?_ofLines]
  cases hfind : c.lines.reverse.find? (·.featureVersion == f) with
  | some l =>
    have hin := List.mem_reverse.1 (List.mem_of_find?_eq_some hfind)
    have hf : l.featureVersion = f := by simpa using List.find?_some hfind
    obtain ⟨hasked, hl⟩ := (mem_lines_of_source hc).1 ⟨hin, hf⟩
    rw [if_pos hasked, hl]
  | none =>
    split
    · next hasked =>
      cases hl : Line.answered? f (source f) with
      | none => rfl
      | some l =>
        obtain ⟨hin, hf⟩ := (mem_lines_of_source hc).2 ⟨hasked, hl⟩
        have hne := List.find?_eq_none.1 hfind l (List.mem_reverse.2 hin)
        simp [hf] at hne
    · rfl

/-- The snapshot depends on which feature versions are asked for, and on nothing else. -/
theorem ofLines_lines_congr {c d : Cycle} (hc : ∀ i, c.answer i = source)
    (hd : ∀ i, d.answer i = source)
    (hasked : ∀ f, f ∈ c.featureVersions ↔ f ∈ d.featureVersions) :
    Snapshot.ofLines c.lines = Snapshot.ofLines d.lines := by
  ext1 f
  rw [line?_ofLines_lines hc, line?_ofLines_lines hd]
  exact if_congr (hasked f) rfl rfl

end Source

section Sound

variable {a : Archive} {c : Cycle} (h : a.IsSound) (hc : ∀ i, c.answer i = a.source)

include h hc

theorem not_hasFault_of_isSound (i : Nat) (e : RefreshError) : ¬ c.HasFault i e := by
  rintro ⟨f, -, he⟩
  rw [hc] at he
  exact h.not_readFault f e he

theorem copy?_ofLines_lines (f : UInt32) (id : String) :
    (Snapshot.ofLines c.lines).copy? f id =
      if f ∈ c.featureVersions then a.holdings.line f id else none := by
  rw [Snapshot.copy?, Snapshot.catalog?, line?_ofLines_lines hc]
  split
  · obtain ⟨l, -, -, hl, -, hget⟩ | ⟨hn, hnone⟩ := h.source_eq f
    · rw [hl]
      exact hget id
    · rw [hn, hnone]
      rfl
  · rfl

theorem get?_of_catalog?_ofLines_lines {f : UInt32} {line : Catalog}
    (hl : (Snapshot.ofLines c.lines).catalog? f = some line) (id : String) :
    line.get? id = a.holdings.line f id := by
  have hcopy := copy?_ofLines_lines h hc f id
  rw [Snapshot.copy?, hl, Option.bind_some] at hcopy
  split at hcopy
  · exact hcopy
  · next hf =>
    rw [Snapshot.catalog?, line?_ofLines_lines hc, if_neg hf] at hl
    cases hl

theorem mem_featureVersions_ofLines_lines {f : UInt32} :
    f ∈ (Snapshot.ofLines c.lines).featureVersions ↔
      f ∈ c.featureVersions ∧ ∃ id r, a.holdings.line f id = some r := by
  rw [Snapshot.mem_featureVersions, line?_ofLines_lines hc]
  by_cases hf : f ∈ c.featureVersions
  · rw [if_pos hf, and_iff_right hf]
    obtain ⟨l, id, r, hl, hr, -⟩ | ⟨hn, hnone⟩ := h.source_eq f
    · rw [hl]
      exact iff_of_true ⟨_, rfl⟩ ⟨id, r, hr⟩
    · rw [hn]
      refine iff_of_false nofun ?_
      rintro ⟨id, r, hr⟩
      rw [hnone] at hr
      cases hr
  · rw [if_neg hf]
    exact iff_of_false nofun fun hm => hf hm.1

/-- An id is stored once, so the catalog of all releases has no choice between copies. -/
theorem get?_all_ofLines_lines {id : String} {r : Release} :
    (Snapshot.ofLines c.lines).all.get? id = some r ↔
      ∃ imported, a.holdings id = some ⟨r, imported⟩ ∧ r.featureVersion ∈ c.featureVersions := by
  rw [Snapshot.get?_all_eq_some]
  simp only [copy?_ofLines_lines h hc]
  constructor
  · rintro ⟨f, hf, -⟩
    split at hf
    · next hasked =>
      obtain ⟨imported, hx, rfl⟩ := Holdings.line_eq_some.1 hf
      exact ⟨imported, hx, hasked⟩
    · cases hf
  · rintro ⟨imported, hx, hasked⟩
    refine ⟨r.featureVersion, ?_, fun g hg => ?_⟩
    · rw [if_pos hasked]
      exact Holdings.line_eq_some.2 ⟨imported, hx, rfl⟩
    · have hother : a.holdings.line g id = none := by
        rw [Option.eq_none_iff_forall_ne_some]
        intro s hs
        obtain ⟨_, hy, rfl⟩ := Holdings.line_eq_some.1 hs
        cases hx.symm.trans hy
        exact UInt32.lt_irrefl _ hg
      rw [hother, ite_self]

end Sound

end Cycle

namespace Database

end Database

end ReleaseCatalog

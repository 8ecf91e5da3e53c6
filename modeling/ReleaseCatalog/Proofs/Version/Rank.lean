import ReleaseCatalog.Proofs.Catalog.Listing

namespace ReleaseCatalog

namespace Version

/-- What a comparison sees of a version: its parts without the ignored tag and without the optional
suffix. -/
def compared (v : Version) : Components :=
  { v.withoutIgnoredTag.toComponents with optional := none }

theorem withoutIgnoredTag_of_ne {v : Version} (h : v.pre ≠ some ignoredTag) :
    v.withoutIgnoredTag = v :=
  if_neg h

theorem pre_withoutIgnoredTag_ne (v : Version) : v.withoutIgnoredTag.pre ≠ some ignoredTag := by
  by_cases h : v.pre = some ignoredTag
  · rw [withoutIgnoredTag, if_pos h]
    exact (Option.some_ne_none _).symm
  · rwa [withoutIgnoredTag_of_ne h]

theorem withoutIgnoredTag_withoutIgnoredTag (v : Version) :
    v.withoutIgnoredTag.withoutIgnoredTag = v.withoutIgnoredTag :=
  withoutIgnoredTag_of_ne v.pre_withoutIgnoredTag_ne

theorem compared_eq (v : Version) :
    v.compared = { v.toComponents with pre := v.rankedTag, optional := none } := by
  by_cases h : v.pre = some ignoredTag
  · have htag : v.rankedTag = none := by simp [rankedTag, h]
    rw [compared, withoutIgnoredTag, if_pos h, htag]
    rfl
  · have htag : v.rankedTag = v.pre := by
      rw [rankedTag]
      cases hpre : v.pre with
      | none => rfl
      | some t =>
        have hne : t ≠ ignoredTag := fun heq => h (by rw [hpre, heq])
        exact Option.filter_some_pos (bne_iff_ne.2 hne)
    rw [compared, withoutIgnoredTag_of_ne h, htag]

theorem compared_withoutIgnoredTag (v : Version) : v.withoutIgnoredTag.compared = v.compared := by
  rw [compared, withoutIgnoredTag_withoutIgnoredTag, compared]

/-- The two keys that stand for a tag tell tags apart, and a tag from none. -/
theorem rankedTag_keys_eq_iff {a b : Version} :
    ((!a.isPreRelease) = (!b.isPreRelease) ∧ a.rankedTag.getD "" = b.rankedTag.getD "") ↔
      a.rankedTag = b.rankedTag := by
  rw [isPreRelease, isPreRelease]
  cases a.rankedTag <;> cases b.rankedTag <;> simp

theorem compare_eq_iff {a b : Version} : compare a b = .eq ↔ a.compared = b.compared := by
  have hkeys : compare a b = .eq ↔
      a.major = b.major ∧ a.minor = b.minor ∧ a.security = b.security ∧ a.patch = b.patch ∧
        (!a.isPreRelease) = (!b.isPreRelease) ∧ a.rankedTag.getD "" = b.rankedTag.getD "" ∧
          a.build = b.build ∧ a.additional = b.additional := by
    show rank a b = .eq ↔ _
    simp only [rank, compareLex_eq_eq, compareOn, Std.compare_eq_iff_eq]
  rw [hkeys, compared_eq, compared_eq, Components.mk.injEq]
  constructor
  · rintro ⟨hmajor, hminor, hsecurity, hpatch, hkind, htag, hbuild, hadditional⟩
    exact ⟨hmajor, hminor, hsecurity, rankedTag_keys_eq_iff.1 ⟨hkind, htag⟩, hpatch, hbuild,
      hadditional, rfl⟩
  · rintro ⟨hmajor, hminor, hsecurity, htag, hpatch, hbuild, hadditional, -⟩
    obtain ⟨hkind, htag⟩ := rankedTag_keys_eq_iff.2 htag
    exact ⟨hmajor, hminor, hsecurity, hpatch, hkind, htag, hbuild, hadditional⟩

theorem compare_withoutIgnoredTag (v : Version) : compare v.withoutIgnoredTag v = .eq :=
  compare_eq_iff.2 v.compared_withoutIgnoredTag

end Version

/-- The rank of versions is a total preorder whose ties are the versions that look the same in a
comparison, and which the ignored tag has no part in. The two orders of releases are total, and
only releases of one id share a place in them. -/
theorem Version.rank_total_preorder :
    (∀ a b : Version, compare b a = (compare a b).swap) ∧
    (∀ a b c : Version, (compare a b).isLE → (compare b c).isLE → (compare a c).isLE) ∧
    (∀ a b : Version, compare a b = .eq ↔
      { a.withoutIgnoredTag.toComponents with optional := none } =
        { b.withoutIgnoredTag.toComponents with optional := none }) ∧
    (∀ a : Version, a.withoutIgnoredTag.withoutIgnoredTag = a.withoutIgnoredTag ∧
      ∀ b : Version, compare a.withoutIgnoredTag b = compare a b ∧
        compare b a.withoutIgnoredTag = compare b a) ∧
    ∀ method : SortMethod,
      (∀ r s, method.compare s r = (method.compare r s).swap) ∧
      (∀ r s t, (method.compare r s).isLE → (method.compare s t).isLE →
        (method.compare r t).isLE) ∧
      ∀ r s, method.compare r s = .eq → r.id = s.id := by
  refine ⟨fun a b => Std.OrientedCmp.eq_swap, fun a b c => Std.TransCmp.isLE_trans,
    fun a b => compare_eq_iff, ?_, ?_⟩
  · intro a
    refine ⟨a.withoutIgnoredTag_withoutIgnoredTag, fun b => ⟨?_, ?_⟩⟩
    · exact Std.TransCmp.congr_left a.compare_withoutIgnoredTag
    · exact Std.TransCmp.congr_right a.compare_withoutIgnoredTag
  · intro method
    exact ⟨fun r s => Std.OrientedCmp.eq_swap, fun r s t => Std.TransCmp.isLE_trans,
      fun r s => SortMethod.id_eq_of_compare⟩

end ReleaseCatalog

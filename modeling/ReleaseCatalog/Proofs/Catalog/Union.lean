import ReleaseCatalog.Catalog.Snapshot
import ReleaseCatalog.Proofs.Catalog.Difference

namespace ReleaseCatalog

theorem findSome?_eq_some_iff_of_pairwise {α β : Type} {r : α → α → Prop}
    (hr : ∀ a b, r a b → ¬ r b a) {as : List α} (has : as.Pairwise r) {f : α → Option β} {b : β} :
    as.findSome? f = some b ↔
      ∃ a ∈ as, f a = some b ∧ ∀ c ∈ as, (f c).isSome = true → c = a ∨ r a c := by
  have hfirst {b : β} (h : as.findSome? f = some b) :
      ∃ a ∈ as, f a = some b ∧ ∀ c ∈ as, (f c).isSome = true → c = a ∨ r a c := by
    obtain ⟨before, a, after, rfl, ha, hbefore⟩ := List.findSome?_eq_some_iff.1 h
    refine ⟨a, by simp, ha, fun c hc hsome => ?_⟩
    obtain ⟨-, hafter, -⟩ := List.pairwise_append.1 has
    rcases List.mem_append.1 hc with hc | hc
    · rw [hbefore c hc] at hsome
      cases hsome
    · rcases List.mem_cons.1 hc with rfl | hc
      · exact .inl rfl
      · exact .inr ((List.pairwise_cons.1 hafter).1 c hc)
  refine ⟨hfirst, ?_⟩
  rintro ⟨a, ha, hb, hleast⟩
  cases h : as.findSome? f with
  | none =>
    rw [List.findSome?_eq_none_iff.1 h a ha] at hb
    cases hb
  | some b' =>
    obtain ⟨a', ha', hb', hleast'⟩ := hfirst h
    have hsame : a' = a := by
      rcases hleast a' ha' (by rw [hb']; rfl) with heq | hlt
      · exact heq
      · rcases hleast' a ha (by rw [hb]; rfl) with heq | hlt'
        · exact heq.symm
        · exact absurd hlt' (hr a a' hlt)
    rw [← hb', hsame, hb]

namespace Catalog

theorem mem_releases_of_get? {c : Catalog} {id : String} {r : Release} (h : c.get? id = some r) :
    r ∈ c.releases := by
  rw [mem_releases, id_of_get? h]
  exact h

theorem find?_eq_get? {c : Catalog} {rs : List Release} (h : ∀ r, r ∈ rs ↔ r ∈ c.releases)
    (id : String) : rs.find? (·.id == id) = c.get? id := by
  cases hf : rs.find? (·.id == id) with
  | some r =>
    have hid : r.id = id := by simpa using List.find?_some hf
    rw [← hid]
    exact (mem_releases.1 ((h r).1 (List.mem_of_find?_eq_some hf))).symm
  | none =>
    cases hg : c.get? id with
    | none => rfl
    | some r =>
      have hr := (h r).2 (mem_releases_of_get? hg)
      have hne := List.find?_eq_none.1 hf r hr
      simp [id_of_get? hg] at hne

theorem get?_insertAll_releases (c d : Catalog) (id : String) :
    (c.insertAll d.releases).get? id = (d.get? id).or (c.get? id) := by
  rw [get?_insertAll, find?_eq_get? fun _ => List.mem_reverse]

theorem insertAll_append (c : Catalog) (rs ss : List Release) :
    c.insertAll (rs ++ ss) = (c.insertAll rs).insertAll ss := by
  induction rs generalizing c with
  | nil => rw [List.nil_append, insertAll_nil]
  | cons r rs ih => rw [List.cons_append, insertAll_cons, ih, insertAll_cons]

theorem erase_of_get?_eq_none {c : Catalog} {id : String} (h : c.get? id = none) :
    c.erase id = c := by
  ext1 id'
  rw [get?_erase]
  split
  · next he => rw [← he, h]
  · rfl

end Catalog

namespace Line

theorem mismatch?_eq_none {l : Line} :
    l.mismatch? = none ↔
      ∀ id r, l.releases.get? id = some r → r.featureVersion = l.featureVersion := by
  rw [mismatch?, Option.map_eq_none_iff, List.find?_eq_none]
  constructor
  · intro h id r hr
    simpa using h r (Catalog.mem_releases_of_get? hr)
  · intro h r hr
    simpa using h r.id r (Catalog.mem_releases.1 hr)

/-- A mismatch names the first release, in the order of the ids, that is of another feature
version. -/
theorem exists_of_mismatch? {l : Line} {e : FeatureVersionMismatch} (h : l.mismatch? = some e) :
    ∃ r, l.releases.get? r.id = some r ∧ r.featureVersion ≠ l.featureVersion ∧
      (∀ s, l.releases.get? s.id = some s → compare s.id r.id = .lt →
        s.featureVersion = l.featureVersion) ∧
      e = ⟨l.featureVersion, r.id, r.featureVersion⟩ := by
  obtain ⟨r, hr, rfl⟩ := Option.map_eq_some_iff.1 h
  obtain ⟨hne, before, after, hsplit, hbefore⟩ := List.find?_eq_some_iff_append.1 hr
  have hmem : r ∈ l.releases.releases := List.mem_of_find?_eq_some hr
  refine ⟨r, Catalog.mem_releases.1 hmem, by simpa using hne, fun s hs hlt => ?_, rfl⟩
  have hsmem := Catalog.mem_releases.2 hs
  have hsorted := l.releases.pairwise_releases
  rw [hsplit] at hsmem hsorted
  obtain ⟨-, hsorted, -⟩ := List.pairwise_append.1 hsorted
  rcases List.mem_append.1 hsmem with hsmem | hsmem
  · simpa using hbefore s hsmem
  · rcases List.mem_cons.1 hsmem with rfl | hsmem
    · have hself : compare s.id s.id = .eq := Std.ReflCmp.compare_self
      rw [hself] at hlt
      cases hlt
    · have hgt := (List.pairwise_cons.1 hsorted).1 s hsmem
      rw [Std.OrientedOrd.eq_swap, hlt] at hgt
      cases hgt

end Line

namespace Snapshot

/-- The copy of an id in the line of a feature version. -/
def copy? (s : Snapshot) (f : UInt32) (id : String) : Option Release :=
  (s.catalog? f).bind (·.get? id)

theorem copy?_of_mem {s : Snapshot} {l : Line} (h : l ∈ s.lines) (id : String) :
    s.copy? l.featureVersion id = l.releases.get? id := by
  rw [copy?, catalog?, mem_lines.1 h]
  rfl

theorem line_of_copy? {s : Snapshot} {f : UInt32} {id : String} {r : Release}
    (h : s.copy? f id = some r) :
    ∃ l ∈ s.lines, l.featureVersion = f ∧ l.releases.get? id = some r := by
  obtain ⟨c, hc, hr⟩ := Option.bind_eq_some_iff.1 h
  obtain ⟨l, hl, rfl⟩ := Option.map_eq_some_iff.1 hc
  have hf := featureVersion_of_line? hl
  subst hf
  exact ⟨l, mem_lines.2 hl, rfl, hr⟩

theorem get?_insertAll_flatMap (c : Catalog) (ls : List Line) (id : String) :
    (c.insertAll (ls.flatMap (·.releases.releases))).get? id =
      (ls.reverse.findSome? (·.releases.get? id)).or (c.get? id) := by
  induction ls generalizing c with
  | nil => simp
  | cons l ls ih =>
    rw [List.flatMap_cons, Catalog.insertAll_append, ih, Catalog.get?_insertAll_releases,
      List.reverse_cons, List.findSome?_append, Option.or_assoc]
    simp

theorem get?_all (s : Snapshot) (id : String) :
    s.all.get? id = s.lines.reverse.findSome? (·.releases.get? id) := by
  rw [s.all_eq, flatten, Catalog.ofReleases, get?_insertAll_flatMap]
  simp [lines]

theorem get?_all_eq_some_iff_line {s : Snapshot} {id : String} {r : Release} :
    s.all.get? id = some r ↔ ∃ l ∈ s.lines, l.releases.get? id = some r ∧
      ∀ k ∈ s.lines, (k.releases.get? id).isSome = true →
        k = l ∨ k.featureVersion < l.featureVersion := by
  rw [get?_all, findSome?_eq_some_iff_of_pairwise (fun _ _ => UInt32.lt_asymm)
    (List.pairwise_reverse.2 s.pairwise_lines)]
  simp only [List.mem_reverse]

/-- The catalog of all releases has the copy of the greatest feature version. -/
theorem get?_all_eq_some {s : Snapshot} {id : String} {r : Release} :
    s.all.get? id = some r ↔ ∃ f, s.copy? f id = some r ∧ ∀ g, f < g → s.copy? g id = none := by
  rw [get?_all_eq_some_iff_line]
  constructor
  · rintro ⟨l, hl, hr, hgreatest⟩
    refine ⟨l.featureVersion, (copy?_of_mem hl id).trans hr, fun g hg => ?_⟩
    rw [Option.eq_none_iff_forall_ne_some]
    intro t ht
    obtain ⟨k, hk, rfl, hget⟩ := line_of_copy? ht
    rcases hgreatest k hk (by rw [hget]; rfl) with rfl | hlt
    · exact UInt32.lt_irrefl _ hg
    · exact UInt32.lt_asymm hg hlt
  · rintro ⟨f, hf, habove⟩
    obtain ⟨l, hl, rfl, hr⟩ := line_of_copy? hf
    refine ⟨l, hl, hr, fun k hk hsome => ?_⟩
    by_cases hf : k.featureVersion = l.featureVersion
    · have hline := mem_lines.1 hk
      rw [hf, mem_lines.1 hl] at hline
      exact .inl (Option.some.inj hline).symm
    · rcases UInt32.lt_or_lt_of_ne hf with hlt | hgt
      · exact .inr hlt
      · have hnone := habove _ hgt
        rw [copy?_of_mem hk] at hnone
        rw [hnone] at hsome
        cases hsome

theorem contains_all {s : Snapshot} {id : String} :
    s.all.contains id = true ↔ ∃ f c, s.catalog? f = some c ∧ c.contains id = true := by
  simp only [Catalog.contains_eq_isSome, get?_all, List.findSome?_isSome_iff, List.mem_reverse]
  constructor
  · rintro ⟨l, hl, hid⟩
    refine ⟨l.featureVersion, l.releases, ?_, hid⟩
    rw [catalog?, mem_lines.1 hl]
    rfl
  · rintro ⟨f, c, hc, hid⟩
    obtain ⟨l, hl, rfl⟩ := Option.map_eq_some_iff.1 hc
    refine ⟨l, ?_, hid⟩
    rw [mem_lines, featureVersion_of_line? hl, hl]

theorem line?_foldl_insert (ls : List Line) (s : Snapshot) (f : UInt32) :
    (ls.foldl insert s).line? f = (ls.reverse.find? (·.featureVersion == f)).or (s.line? f) := by
  induction ls generalizing s with
  | nil => simp
  | cons l ls ih =>
    rw [List.foldl_cons, ih, line?_insert, List.reverse_cons, List.find?_append, Option.or_assoc]
    by_cases h : l.featureVersion = f <;> simp [h]

theorem line?_ofLines (ls : List Line) (f : UInt32) :
    (ofLines ls).line? f = ls.reverse.find? (·.featureVersion == f) := by
  rw [ofLines, line?_foldl_insert, line?_empty, Option.or_none]

theorem addRelease_of_ne {s : Snapshot} {f : UInt32} {r : Release} (h : r.featureVersion ≠ f) :
    s.addRelease f r = .error ⟨f, r.id, r.featureVersion⟩ :=
  if_neg h

theorem addRelease_of_eq {s : Snapshot} {f : UInt32} {r : Release} (h : r.featureVersion = f) :
    ∃ t, s.addRelease f r = .ok t ∧
      t.line? f = some ⟨f, ((s.catalog? f).getD .empty).insert r⟩ ∧
      ∀ g, g ≠ f → t.line? g = s.line? g := by
  refine ⟨_, if_pos h, ?_, fun g hg => ?_⟩
  · rw [line?_insert, if_pos rfl]
  · rw [line?_insert, if_neg hg.symm]

theorem copy?_addRelease {s t : Snapshot} {f : UInt32} {r : Release}
    (h : s.addRelease f r = .ok t) (g : UInt32) (id : String) :
    t.copy? g id = if g = f ∧ id = r.id then some r else s.copy? g id := by
  rw [addRelease] at h
  split at h
  · cases h
    rw [copy?, catalog?_insert]
    by_cases hg : f = g
    · subst hg
      rw [if_pos rfl, Option.bind_some, Catalog.get?_insert, copy?]
      cases s.catalog? f <;> simp [eq_comm]
    · rw [if_neg hg, if_neg fun h => hg h.1.symm, copy?]
  · cases h

theorem removeRelease_of_copy?_eq_none {s : Snapshot} {f : UInt32} {id : String}
    (h : s.copy? f id = none) : s.removeRelease f id = s := by
  rw [removeRelease]
  cases hc : s.catalog? f with
  | none => rfl
  | some c =>
    rw [copy?, hc, Option.bind_some] at h
    have hid : c.contains id = false := by rw [Catalog.contains_eq_isSome, h]; rfl
    simp [hid]

theorem line?_removeRelease (s : Snapshot) (f : UInt32) (id : String) (g : UInt32) :
    (s.removeRelease f id).line? g =
      if g = f then (s.line? f).map fun l => ⟨f, l.releases.erase id⟩ else s.line? g := by
  cases hl : s.line? f with
  | none =>
    have hc : s.copy? f id = none := by rw [copy?, catalog?, hl]; rfl
    rw [removeRelease_of_copy?_eq_none hc]
    split
    · next he => rw [he, hl]; rfl
    · rfl
  | some l =>
    have hcat : s.catalog? f = some l.releases := by rw [catalog?, hl]; rfl
    cases hid : l.releases.get? id with
    | none =>
      have hc : s.copy? f id = none := by rw [copy?, hcat]; exact hid
      rw [removeRelease_of_copy?_eq_none hc, Option.map_some, Catalog.erase_of_get?_eq_none hid]
      split
      · next he => rw [he, hl, ← featureVersion_of_line? hl]
      · rfl
    | some r =>
      have hcontains : l.releases.contains id = true := by
        rw [Catalog.contains_eq_isSome, hid]
        rfl
      simp only [removeRelease, hcat, hcontains, if_true, line?_insert, Option.map_some]
      by_cases he : g = f
      · rw [if_pos he.symm, if_pos he]
      · rw [if_neg (Ne.symm he), if_neg he]

theorem catalog?_removeRelease (s : Snapshot) (f : UInt32) (id : String) (g : UInt32) :
    (s.removeRelease f id).catalog? g =
      if g = f then (s.catalog? f).map (·.erase id) else s.catalog? g := by
  rw [catalog?, line?_removeRelease, catalog?, catalog?]
  split
  · rw [Option.map_map, Option.map_map]
    rfl
  · rfl

theorem copy?_removeRelease (s : Snapshot) (f : UInt32) (id : String) (g : UInt32) (id' : String) :
    (s.removeRelease f id).copy? g id' =
      if g = f ∧ id' = id then none else s.copy? g id' := by
  rw [copy?, catalog?_removeRelease]
  by_cases hg : g = f
  · subst hg
    rw [if_pos rfl, copy?]
    cases s.catalog? g with
    | none => simp
    | some c => simp [Catalog.get?_erase, eq_comm]
  · rw [if_neg hg, if_neg fun h => hg h.1, copy?]

/-- Without the copy of one line, the copy of the greatest other line comes to light. -/
theorem get?_all_removeRelease {s : Snapshot} {f g : UInt32} {id : String} {r : Release}
    (hg : s.copy? g id = some r) (hne : g ≠ f)
    (habove : ∀ k, g < k → k ≠ f → s.copy? k id = none) :
    (s.removeRelease f id).all.get? id = some r := by
  rw [get?_all_eq_some]
  refine ⟨g, ?_, fun k hk => ?_⟩
  · rw [copy?_removeRelease, if_neg fun h => hne h.1, hg]
  · rw [copy?_removeRelease]
    split
    · rfl
    · next hkf => exact habove k hk fun h => hkf ⟨h, rfl⟩

/-- The releases of every line are of its feature version. -/
def IsConsistent (s : Snapshot) : Prop := ∀ l ∈ s.lines, l.mismatch? = none

theorem isConsistent_iff {s : Snapshot} :
    s.IsConsistent ↔ ∀ f l, s.line? f = some l → l.mismatch? = none := by
  refine ⟨fun h f l hl => ?_, fun h l hl => h _ l (mem_lines.1 hl)⟩
  apply h l
  rw [mem_lines, featureVersion_of_line? hl, hl]

theorem IsConsistent.featureVersion_of_copy? {s : Snapshot} (h : s.IsConsistent) {f : UInt32}
    {id : String} {r : Release} (hr : s.copy? f id = some r) : r.featureVersion = f := by
  obtain ⟨l, hl, rfl, hget⟩ := line_of_copy? hr
  exact Line.mismatch?_eq_none.1 (h l hl) id r hget

theorem IsConsistent.insert {s : Snapshot} (h : s.IsConsistent) {l : Line}
    (hl : l.mismatch? = none) : (s.insert l).IsConsistent := by
  rw [isConsistent_iff] at h ⊢
  intro f k hk
  rw [line?_insert] at hk
  split at hk
  · exact Option.some.inj hk ▸ hl
  · exact h f k hk

theorem isConsistent_ofLines {ls : List Line} (h : ∀ l ∈ ls, l.mismatch? = none) :
    (ofLines ls).IsConsistent := by
  rw [isConsistent_iff]
  intro f l hl
  rw [line?_ofLines] at hl
  exact h l (List.mem_reverse.1 (List.mem_of_find?_eq_some hl))

theorem IsConsistent.addRelease {s t : Snapshot} (h : s.IsConsistent) {f : UInt32} {r : Release}
    (ht : s.addRelease f r = .ok t) : t.IsConsistent := by
  rw [Snapshot.addRelease] at ht
  split at ht
  · next hr =>
    cases ht
    apply h.insert
    rw [Line.mismatch?_eq_none]
    intro id r' hr'
    rw [Catalog.get?_insert] at hr'
    split at hr'
    · cases hr'
      exact hr
    · cases hl : s.line? f with
      | none =>
        simp [catalog?, hl] at hr'
      | some l =>
        have hc : (s.catalog? f).getD .empty = l.releases := by rw [catalog?, hl]; rfl
        rw [hc] at hr'
        have hl' := isConsistent_iff.1 h f l hl
        exact (Line.mismatch?_eq_none.1 hl' id r' hr').trans (featureVersion_of_line? hl)
  · cases ht

theorem IsConsistent.removeRelease {s : Snapshot} (h : s.IsConsistent) (f : UInt32)
    (id : String) : (s.removeRelease f id).IsConsistent := by
  rw [isConsistent_iff] at h ⊢
  intro g l hl
  rw [line?_removeRelease] at hl
  split at hl
  · obtain ⟨k, hk, rfl⟩ := Option.map_eq_some_iff.1 hl
    rw [Line.mismatch?_eq_none]
    intro id' r hr
    rw [Catalog.get?_erase] at hr
    split at hr
    · cases hr
    · have hk' := h f k hk
      exact (Line.mismatch?_eq_none.1 hk' id' r hr).trans (featureVersion_of_line? hk)
  · exact h g l hl

/-- What can be done to a snapshot. -/
inductive Edit where
  /-- Starts anew from some lines. -/
  | ofLines (ls : List Line)
  | addRelease (f : UInt32) (r : Release)
  | removeRelease (f : UInt32) (id : String)

namespace Edit

/-- The snapshot after an edit; a release that is refused leaves it as it is. -/
def apply : Edit → Snapshot → Snapshot
  | .ofLines ls, _ => Snapshot.ofLines ls
  | .addRelease f r, s => (s.addRelease f r).toOption.getD s
  | .removeRelease f id, s => s.removeRelease f id

/-- The lines that an edit works on. -/
def lines : Edit → Snapshot → List Line
  | .ofLines ls, _ => ls
  | .addRelease _ _, s | .removeRelease _ _, s => s.lines

end Edit

/-- The snapshot that a history of edits leaves, from the empty one on. -/
def after (es : List Edit) : Snapshot := es.foldl (fun s e => e.apply s) empty

theorem Edit.isConsistent_apply {e : Edit} {s : Snapshot}
    (h : ∀ l ∈ e.lines s, l.mismatch? = none) : (e.apply s).IsConsistent := by
  cases e with
  | ofLines ls => exact isConsistent_ofLines h
  | addRelease f r =>
    have hs : s.IsConsistent := h
    rw [apply]
    cases ha : s.addRelease f r with
    | error _ => exact hs
    | ok t => exact hs.addRelease ha
  | removeRelease f id =>
    have hs : s.IsConsistent := h
    exact hs.removeRelease f id

/-- After any history of edits each line is filed under its own feature version, and the catalog of
all releases has the copy of an id from the greatest feature version that holds it. A release goes
into the line of its major version only, and changes there what is under its id; a removal takes out
what is under an id of one line, which stays. Edits keep consistent lines consistent. -/
theorem union_after (es : List Edit) :
    (∀ f l, (after es).line? f = some l → l.featureVersion = f) ∧
    (∀ ls f, (ofLines ls).line? f = ls.reverse.find? (·.featureVersion == f)) ∧
    (∀ id, (after es).all.contains id = true ↔
      ∃ f c, (after es).catalog? f = some c ∧ c.contains id = true) ∧
    (∀ id r, (after es).all.get? id = some r ↔
      ∃ f, (after es).copy? f id = some r ∧ ∀ g, f < g → (after es).copy? g id = none) ∧
    (∀ f r, (r.version.major ≠ f →
        (after es).addRelease f r = .error ⟨f, r.id, r.version.major⟩) ∧
      (r.version.major = f → ∃ t, (after es).addRelease f r = .ok t ∧
        t.copy? f r.id = some r ∧
        (∀ id, id ≠ r.id → t.copy? f id = (after es).copy? f id) ∧
        ∀ g, g ≠ f → t.line? g = (after es).line? g)) ∧
    (∀ f id,
      ((after es).removeRelease f id).copy? f id = none ∧
      (∀ id', id' ≠ id →
        ((after es).removeRelease f id).copy? f id' = (after es).copy? f id') ∧
      (((after es).removeRelease f id).line? f).isSome = ((after es).line? f).isSome ∧
      (∀ g, g ≠ f → ((after es).removeRelease f id).line? g = (after es).line? g) ∧
      ((after es).copy? f id = none → (after es).removeRelease f id = after es) ∧
      ∀ g r, g ≠ f → (after es).copy? g id = some r →
        (∀ k, g < k → k ≠ f → (after es).copy? k id = none) →
        ((after es).removeRelease f id).all.get? id = some r) ∧
    (∀ l : Line, l.mismatch? = none ↔
      ∀ id r, l.releases.get? id = some r → r.version.major = l.featureVersion) ∧
    ∀ e : Edit, (∀ l ∈ e.lines (after es), l.mismatch? = none) →
      ∀ l ∈ (e.apply (after es)).lines, l.mismatch? = none := by
  refine ⟨fun f l hl => featureVersion_of_line? hl, line?_ofLines, fun id => contains_all,
    fun id r => get?_all_eq_some, fun f r => ⟨addRelease_of_ne, fun hr => ?_⟩,
    fun f id => ⟨?_, fun id' hid => ?_, ?_, fun g hg => ?_, removeRelease_of_copy?_eq_none,
      fun g r hne hg habove => ?_⟩,
    fun l => Line.mismatch?_eq_none, fun e he => Edit.isConsistent_apply he⟩
  · obtain ⟨t, ht, hline, hother⟩ := addRelease_of_eq (s := after es) hr
    refine ⟨t, ht, ?_, fun id hid => ?_, hother⟩
    · rw [copy?_addRelease ht, if_pos ⟨rfl, rfl⟩]
    · rw [copy?_addRelease ht, if_neg fun h => hid h.2]
  · rw [copy?_removeRelease, if_pos ⟨rfl, rfl⟩]
  · rw [copy?_removeRelease, if_neg fun h => hid h.2]
  · rw [line?_removeRelease, if_pos rfl, Option.isSome_map]
  · rw [line?_removeRelease, if_neg hg]
  · exact get?_all_removeRelease hg hne habove

/-- Two lines that hold one id. -/
def sharing : List Line :=
  [⟨8, .ofReleases [.plain "x" 8 (.atSecond 1)]⟩, ⟨11, .ofReleases [.plain "x" 11 (.atSecond 0)]⟩]

theorem union_after_sharing :
    (after [.ofLines sharing]).all.get? "x" = some (.plain "x" 11 (.atSecond 0)) ∧
    ((after [.ofLines sharing]).removeRelease 11 "x").all.get? "x" =
      some (.plain "x" 8 (.atSecond 1)) ∧
    (((after [.ofLines sharing]).removeRelease 11 "x").line? 11).isSome = true ∧
    ∃ t, (after [.ofLines sharing]).addRelease 11 (.plain "y" 11 (.atSecond 2)) = .ok t ∧
      t.copy? 11 "y" = some (.plain "y" 11 (.atSecond 2)) ∧
      t.copy? 11 "x" = some (.plain "x" 11 (.atSecond 0)) := by
  obtain ⟨-, hlines, -, hall, hadd, hremove, -⟩ := union_after [.ofLines sharing]
  have hlow : (after [.ofLines sharing]).copy? 8 "x" = some (.plain "x" 8 (.atSecond 1)) := by
    decide +kernel
  have hhigh : (after [.ofLines sharing]).copy? 11 "x" = some (.plain "x" 11 (.atSecond 0)) := by
    decide +kernel
  have hnone (f : UInt32) (h8 : 8 ≠ f) (h11 : 11 ≠ f) :
      (after [.ofLines sharing]).copy? f "x" = none := by
    have hline : (ofLines sharing).line? f = none := by
      rw [hlines]
      simp [sharing, h8, h11]
    change ((ofLines sharing).catalog? f).bind _ = none
    rw [catalog?, hline]
    rfl
  obtain ⟨-, -, hstays, -, -, hexposed⟩ := hremove 11 "x"
  obtain ⟨t, ht, hnew, hother, -⟩ := (hadd 11 (.plain "y" 11 (.atSecond 2))).2 rfl
  refine ⟨(hall _ _).2 ⟨11, hhigh, fun f hf => ?_⟩,
    hexposed 8 _ (by decide) hlow fun f hf hne => ?_, ?_, t, ht, hnew, ?_⟩
  · exact hnone f (UInt32.ne_of_lt (UInt32.lt_trans (by decide) hf)) (UInt32.ne_of_lt hf)
  · exact hnone f (UInt32.ne_of_lt hf) hne.symm
  · rw [hstays]
    decide +kernel
  · rw [hother "x" (by decide), hhigh]

end Snapshot

end ReleaseCatalog

import Mathlib.Data.List.Dedup
import Mathlib.Data.List.Induction
import ReleaseCatalog.Version.RangeCache

namespace ReleaseCatalog

section LastOccurrences

variable {α : Type}

theorem dedup_concat [DecidableEq α] (xs : List α) (x : α) :
    (xs ++ [x]).dedup = xs.dedup.filter (· != x) ++ [x] := by
  induction xs with
  | nil => rfl
  | cons y xs ih =>
    rw [List.cons_append]
    by_cases hy : y ∈ xs
    · rw [List.dedup_cons_of_mem (List.mem_append_left _ hy), List.dedup_cons_of_mem hy, ih]
    · rw [List.dedup_cons_of_notMem hy]
      by_cases hyx : y = x
      · rw [List.dedup_cons_of_mem (by simp [hyx]), ih, List.filter_cons_of_neg (by simp [hyx])]
      · have hnot : y ∉ xs ++ [x] := by simp [hy, hyx]
        rw [List.dedup_cons_of_notMem hnot, ih, List.filter_cons_of_pos (by simp [hyx]),
          List.cons_append]

theorem take_filter_take [DecidableEq α] {xs : List α} (h : xs.Nodup) (x : α) (n : Nat) :
    ((xs.take (n + 1)).filter (· != x)).take n = (xs.filter (· != x)).take n := by
  induction xs generalizing n with
  | nil => rfl
  | cons y xs ih =>
    obtain ⟨hy, hxs⟩ := List.nodup_cons.1 h
    rw [List.take_succ_cons]
    by_cases hyx : y = x
    · have hkeep : xs.filter (· != x) = xs := by
        apply List.filter_eq_self.2
        intro z hz
        apply bne_iff_ne.2
        intro hzx
        exact hy (hyx.trans hzx.symm ▸ hz)
      have hkeep' : (xs.take n).filter (· != x) = xs.take n := by
        apply List.filter_eq_self.2
        intro z hz
        exact List.filter_eq_self.1 hkeep z (List.mem_of_mem_take hz)
      rw [List.filter_cons_of_neg (by simp [hyx]), List.filter_cons_of_neg (by simp [hyx]), hkeep,
        hkeep', List.take_take, Nat.min_self]
    · rw [List.filter_cons_of_pos (by simp [hyx]), List.filter_cons_of_pos (by simp [hyx])]
      cases n with
      | zero => rfl
      | succ n => rw [List.take_succ_cons, List.take_succ_cons, ih hxs]

theorem exists_last_of_mem {x : α} {xs : List α} (h : x ∈ xs) :
    ∃ before after, xs = before ++ x :: after ∧ x ∉ after := by
  obtain ⟨as, bs, hsplit, hnot⟩ := List.eq_append_cons_of_mem (List.mem_reverse.2 h)
  refine ⟨bs.reverse, as.reverse, ?_, ?_⟩
  · rw [← List.reverse_reverse xs, hsplit]
    simp
  · rw [List.mem_reverse]
    exact hnot

theorem mem_take_append_cons {xs ys : List α} {x : α} (h : (xs ++ x :: ys).Nodup) (n : Nat) :
    x ∈ (xs ++ x :: ys).take n ↔ xs.length < n := by
  have hx : x ∉ xs := by
    intro hx
    exact (List.nodup_append.1 h).2.2 x hx x (List.mem_cons_self ..) rfl
  rw [List.take_append, List.mem_append]
  constructor
  · rintro (hmem | hmem)
    · exact absurd (List.mem_of_mem_take hmem) hx
    · apply Nat.lt_of_sub_pos
      apply Nat.pos_of_ne_zero
      intro hzero
      rw [hzero] at hmem
      cases hmem
  · intro hlt
    obtain ⟨k, hk⟩ := Nat.exists_eq_add_of_lt hlt
    right
    rw [show n - xs.length = k + 1 by omega, List.take_succ_cons]
    exact List.mem_cons_self ..

theorem concat_eq_append_cons {xs ys zs : List α} {x y : α} (h : xs ++ [x] = ys ++ y :: zs) :
    (xs = ys ∧ x = y ∧ zs = []) ∨ ∃ ws, xs = ys ++ y :: ws ∧ zs = ws ++ [x] := by
  rcases List.eq_nil_or_concat' zs with rfl | ⟨ws, z, rfl⟩
  · obtain ⟨hxs, hx⟩ := List.append_inj' h rfl
    exact .inl ⟨hxs, (List.cons.inj hx).1, rfl⟩
  · rw [← List.cons_append, ← List.append_assoc] at h
    obtain ⟨hxs, hx⟩ := List.append_inj' h rfl
    obtain rfl := (List.cons.inj hx).1
    exact .inr ⟨ws, hxs, rfl⟩

end LastOccurrences

namespace RangeCache

def isReadable (spec : String) : Bool := (VersionRange.parse spec).isOk

theorem isReadable_iff {spec : String} :
    isReadable spec = true ↔ ∃ range, VersionRange.parse spec = .ok range := by
  rw [isReadable]
  cases VersionRange.parse spec with
  | error e => simp [Except.isOk, Except.toBool]
  | ok range => simp [Except.isOk, Except.toBool]

/-- The specifications among some requests that can be read, each once. -/
def readable (specs : List String) : List String := (specs.filter isReadable).dedup

theorem nodup_readable (specs : List String) : (readable specs).Nodup := List.nodup_dedup _

theorem mem_readable {spec : String} {specs : List String} :
    spec ∈ readable specs ↔ spec ∈ specs ∧ isReadable spec = true := by
  rw [readable, List.mem_dedup, List.mem_filter]

/-- The same, the one asked for last in front. -/
def recent (specs : List String) : List String := (readable specs).reverse

theorem nodup_recent (specs : List String) : (recent specs).Nodup :=
  List.nodup_reverse.2 (nodup_readable specs)

theorem recent_concat {spec : String} (h : isReadable spec = true) (specs : List String) :
    recent (specs ++ [spec]) = spec :: (recent specs).filter (· != spec) := by
  have hfilter : (specs ++ [spec]).filter isReadable = specs.filter isReadable ++ [spec] := by
    simp [h]
  rw [recent, readable, hfilter, dedup_concat, List.reverse_append, ← List.filter_reverse]
  rfl

theorem recent_concat_of_not_readable {spec : String} (h : isReadable spec = false)
    (specs : List String) : recent (specs ++ [spec]) = recent specs := by
  have hfilter : (specs ++ [spec]).filter isReadable = specs.filter isReadable := by
    simp [h]
  rw [recent, readable, hfilter]
  rfl

/-- Only what was asked for since the last request of a specification stands in front of it. -/
theorem mem_take_recent {spec : String} {earlier since : List String}
    (h : isReadable spec = true) (hsince : spec ∉ since) (n : Nat) :
    spec ∈ (recent (earlier ++ spec :: since)).take n ↔ (readable since).length < n := by
  have hfilter : (earlier ++ spec :: since).filter isReadable =
      earlier.filter isReadable ++ spec :: since.filter isReadable := by
    simp [h]
  have hnot : spec ∉ since.filter isReadable := fun hmem => hsince (List.mem_filter.1 hmem).1
  obtain ⟨front, -, hfront⟩ := List.sublist_suffix_of_union (earlier.filter isReadable)
    (spec :: since.filter isReadable).dedup
  have hsplit : recent (earlier ++ spec :: since) =
      (readable since).reverse ++ spec :: front.reverse := by
    rw [recent, readable, hfilter, List.dedup_append, ← hfront, List.dedup_cons_of_notMem hnot]
    simp [readable]
  have hnodup := nodup_recent (earlier ++ spec :: since)
  rw [hsplit] at hnodup ⊢
  rw [mem_take_append_cons hnodup, List.length_reverse]

def keys (cache : RangeCache) : List String := cache.entries.map (·.1)

/-- What a request does: it takes the reading that is held to the front, puts a new reading there,
or finds that the specification cannot be read. -/
inductive Served (cache : RangeCache) (spec : String) : Except RangeError Answer → RangeCache → Prop
  | hit {reading : RangeReading} (held : (spec, reading) ∈ cache.entries) :
    Served cache spec (.ok ⟨reading, true⟩)
      { cache with entries := (spec, reading) :: cache.entries.filter (·.1 != spec) }
  | miss {range : VersionRange} (absent : spec ∉ cache.keys)
      (parse : VersionRange.parse spec = .ok range) :
    Served cache spec (.ok ⟨⟨cache.made, range⟩, false⟩)
      { cache with
        made := cache.made + 1
        entries := ((spec, ⟨cache.made, range⟩) :: cache.entries.filter (·.1 != spec)).take
          cache.capacity }
  | refused {e : RangeError} (absent : spec ∉ cache.keys)
      (parse : VersionRange.parse spec = .error e) :
    Served cache spec (.error e) cache

theorem served_lookup (cache : RangeCache) (spec : String) :
    Served cache spec (cache.lookup spec).1 (cache.lookup spec).2 := by
  rw [lookup]
  cases hheld : cache.entries.lookup spec with
  | some reading =>
    obtain ⟨before, after, hentries, -⟩ := List.lookup_eq_some_iff.1 hheld
    apply Served.hit
    rw [hentries]
    simp
  | none =>
    have habsent : spec ∉ cache.keys := by
      intro hmem
      obtain ⟨entry, hentry, rfl⟩ := List.mem_map.1 hmem
      have hne := List.lookup_eq_none_iff.1 hheld entry hentry
      simp at hne
    cases hparse : VersionRange.parse spec with
    | ok range => exact .miss habsent hparse
    | error e => exact .refused habsent hparse

def after (capacity : Nat) (specs : List String) : RangeCache :=
  specs.foldl (fun cache spec => (cache.lookup spec).2) (empty capacity)

/-- The answer to a request that comes after some others. -/
def answer (capacity : Nat) (specs : List String) (spec : String) : Except RangeError Answer :=
  ((after capacity specs).lookup spec).1

theorem after_concat (capacity : Nat) (specs : List String) (spec : String) :
    after capacity (specs ++ [spec]) = ((after capacity specs).lookup spec).2 := by
  rw [after, List.foldl_append]
  rfl

theorem served_after (capacity : Nat) (specs : List String) (spec : String) :
    Served (after capacity specs) spec (answer capacity specs spec)
      (after capacity (specs ++ [spec])) := by
  rw [after_concat]
  exact served_lookup _ _

theorem Served.made_le {cache next : RangeCache} {spec : String}
    {answered : Except RangeError Answer} (h : Served cache spec answered next) :
    cache.made ≤ next.made := by
  cases h with
  | hit => exact Nat.le_refl _
  | miss => exact Nat.le_succ _
  | refused => exact Nat.le_refl _

/-- The reading that the last of the requests of a specification was answered with. -/
def IsLastReading (capacity : Nat) (specs : List String) (spec : String)
    (reading : RangeReading) : Prop :=
  ∃ earlier since a, specs = earlier ++ spec :: since ∧ spec ∉ since ∧
    answer capacity earlier spec = .ok a ∧ a.toRangeReading = reading

theorem IsLastReading.concat {capacity : Nat} {specs : List String} {spec other : String}
    {reading : RangeReading} (h : IsLastReading capacity specs spec reading) (hne : spec ≠ other) :
    IsLastReading capacity (specs ++ [other]) spec reading := by
  obtain ⟨earlier, since, a, rfl, hsince, hanswer, hreading⟩ := h
  refine ⟨earlier, since ++ [other], a, by simp, ?_, hanswer, hreading⟩
  simp [hsince, hne]

/-- What a cache holds after some requests. -/
structure Tracks (capacity : Nat) (specs : List String) (cache : RangeCache) : Prop where
  capacity_eq : cache.capacity = capacity
  keys_eq : cache.keys = (recent specs).take capacity
  parse_eq : ∀ entry ∈ cache.entries, VersionRange.parse entry.1 = .ok entry.2.range
  isLast : ∀ entry ∈ cache.entries, IsLastReading capacity specs entry.1 entry.2
  number_lt : ∀ earlier spec since a, specs = earlier ++ spec :: since →
    answer capacity earlier spec = .ok a → a.number < cache.made

theorem tracks_empty (capacity : Nat) : Tracks capacity [] (empty capacity) where
  capacity_eq := rfl
  keys_eq := List.take_nil.symm
  parse_eq := by
    intro entry hentry
    cases hentry
  isLast := by
    intro entry hentry
    cases hentry
  number_lt := by
    intro earlier spec since a hsplit
    simp at hsplit

theorem keys_filter (entries : List (String × RangeReading)) (spec : String) :
    (entries.filter (·.1 != spec)).map (·.1) = (entries.map (·.1)).filter (· != spec) := by
  rw [List.filter_map]
  rfl

namespace Tracks

variable {capacity : Nat} {specs : List String} {cache next : RangeCache} {spec : String}
  {answered : Except RangeError Answer}

theorem mem_keys (h : Tracks capacity specs cache) (hspec : spec ∈ cache.keys) :
    isReadable spec = true := by
  obtain ⟨entry, hentry, rfl⟩ := List.mem_map.1 hspec
  exact isReadable_iff.2 ⟨_, h.parse_eq entry hentry⟩

theorem keys_concat (h : Tracks capacity specs cache) (hspec : isReadable spec = true) :
    (spec :: cache.keys.filter (· != spec)).take capacity =
      (recent (specs ++ [spec])).take capacity := by
  rw [h.keys_eq, recent_concat hspec]
  cases capacity with
  | zero => rfl
  | succ n => rw [List.take_succ_cons, List.take_succ_cons, take_filter_take (nodup_recent specs)]

theorem length_keys_filter_lt (h : Tracks capacity specs cache) (hspec : spec ∈ cache.keys) :
    (cache.keys.filter (· != spec)).length < capacity := by
  have hlt : (cache.keys.filter (· != spec)).length < cache.keys.length :=
    List.length_filter_lt_length_iff_exists.2 ⟨spec, hspec, by simp⟩
  apply Nat.lt_of_lt_of_le hlt
  rw [h.keys_eq]
  exact List.length_take_le _ _

theorem of_mem_served (h : Tracks capacity specs cache) (hserved : Served cache spec answered next)
    {entry : String × RangeReading} (hentry : entry ∈ next.entries) :
    (entry ∈ cache.entries ∧ entry.1 ≠ spec) ∨
      (entry.1 = spec ∧ VersionRange.parse spec = .ok entry.2.range ∧
        ∃ held, answered = .ok ⟨entry.2, held⟩) := by
  cases hserved with
  | @hit reading held =>
    rcases List.mem_cons.1 hentry with rfl | hentry
    · exact .inr ⟨rfl, h.parse_eq (spec, reading) held, true, rfl⟩
    · obtain ⟨hmem, hne⟩ := List.mem_filter.1 hentry
      exact .inl ⟨hmem, bne_iff_ne.1 hne⟩
  | miss absent parse =>
    rcases List.mem_cons.1 (List.mem_of_mem_take hentry) with rfl | hentry
    · exact .inr ⟨rfl, parse, false, rfl⟩
    · obtain ⟨hmem, hne⟩ := List.mem_filter.1 hentry
      exact .inl ⟨hmem, bne_iff_ne.1 hne⟩
  | refused absent parse =>
    refine .inl ⟨hentry, ?_⟩
    intro hspec
    exact absent (hspec ▸ List.mem_map_of_mem hentry)

theorem keys_served (h : Tracks capacity specs cache) (hserved : Served cache spec answered next) :
    next.keys = (recent (specs ++ [spec])).take capacity := by
  cases hserved with
  | @hit reading held =>
    have hspec : spec ∈ cache.keys := List.mem_map_of_mem held
    have hle := h.length_keys_filter_lt hspec
    rw [← h.keys_concat (h.mem_keys hspec), List.take_of_length_le hle, keys, List.map_cons,
      keys_filter]
    rfl
  | miss absent parse =>
    have hspec := isReadable_iff.2 ⟨_, parse⟩
    rw [← h.keys_concat hspec, keys, List.map_take, List.map_cons, keys_filter, h.capacity_eq]
    rfl
  | refused absent parse =>
    have hspec : isReadable spec = false := by
      rw [isReadable, parse]
      rfl
    rw [recent_concat_of_not_readable hspec, h.keys_eq]

theorem number_lt_served (h : Tracks capacity specs cache)
    (hserved : Served cache spec answered next) {a : Answer} (ha : answered = .ok a) :
    a.number < next.made := by
  cases hserved with
  | @hit reading held =>
    cases ha
    obtain ⟨earlier, since, a, hspecs, -, hanswer, rfl⟩ := h.isLast _ held
    exact h.number_lt earlier spec since a hspecs hanswer
  | miss absent parse =>
    cases ha
    exact Nat.lt_succ_self _
  | refused absent parse => cases ha

theorem range_served (h : Tracks capacity specs cache)
    (hserved : Served cache spec answered next) :
    answered.map (·.range) = VersionRange.parse spec := by
  cases hserved with
  | hit held => exact (h.parse_eq _ held).symm
  | miss absent parse => exact parse.symm
  | refused absent parse => exact parse.symm

theorem next_eq_of_error (h : Tracks capacity specs cache)
    (hserved : Served cache spec answered next) {e : RangeError}
    (he : VersionRange.parse spec = .error e) : next = cache := by
  have hrange := h.range_served hserved
  rw [he] at hrange
  cases hserved with
  | hit => cases hrange
  | miss => cases hrange
  | refused => rfl

/-- A request of what is held is answered with the reading of the last request, any other with none
that was given before. -/
theorem number_served (h : Tracks capacity specs cache)
    (hserved : Served cache spec answered next) :
    (spec ∈ cache.keys ∧ ∃ reading, answered = .ok ⟨reading, true⟩ ∧
        IsLastReading capacity specs spec reading) ∨
      (spec ∉ cache.keys ∧ ∀ a, answered = .ok a → a.held = false ∧ a.number = cache.made) := by
  cases hserved with
  | hit held => exact .inl ⟨List.mem_map_of_mem held, _, rfl, h.isLast _ held⟩
  | miss absent parse =>
    refine .inr ⟨absent, ?_⟩
    rintro a ⟨⟩
    exact ⟨rfl, rfl⟩
  | refused absent parse => exact .inr ⟨absent, nofun⟩

theorem served (h : Tracks capacity specs cache) (hserved : Served cache spec answered next)
    (hanswered : answer capacity specs spec = answered) :
    Tracks capacity (specs ++ [spec]) next where
  capacity_eq := by
    cases hserved <;> exact h.capacity_eq
  keys_eq := h.keys_served hserved
  parse_eq := by
    intro entry hentry
    rcases h.of_mem_served hserved hentry with ⟨hmem, -⟩ | ⟨hspec, hparse, -⟩
    · exact h.parse_eq entry hmem
    · rw [hspec, hparse]
  isLast := by
    intro entry hentry
    rcases h.of_mem_served hserved hentry with ⟨hmem, hne⟩ | ⟨hspec, -, held, ha⟩
    · exact (h.isLast entry hmem).concat hne
    · exact ⟨specs, [], _, by rw [hspec], by simp, by rw [hspec, hanswered, ha], rfl⟩
  number_lt := by
    intro earlier other since a hsplit hanswer
    rcases concat_eq_append_cons hsplit with ⟨rfl, rfl, -⟩ | ⟨ws, hspecs, -⟩
    · exact h.number_lt_served hserved (hanswered.symm.trans hanswer)
    · exact Nat.lt_of_lt_of_le (h.number_lt earlier other ws a hspecs hanswer) hserved.made_le

end Tracks

theorem tracks_after (capacity : Nat) (specs : List String) :
    Tracks capacity specs (after capacity specs) := by
  induction specs using List.reverseRecOn with
  | nil => exact tracks_empty capacity
  | append_singleton specs spec ih => exact ih.served (served_after capacity specs spec) rfl

/-- The request is answered with the very reading that the last request of its specification was
answered with. -/
def IsHit (capacity : Nat) (specs : List String) (spec : String) : Prop :=
  ∃ earlier since a b, specs = earlier ++ spec :: since ∧ spec ∉ since ∧
    answer capacity specs spec = .ok a ∧ answer capacity earlier spec = .ok b ∧
    a.number = b.number

variable {capacity : Nat} {specs : List String} {spec : String}

theorem mem_keys_after : spec ∈ (after capacity specs).keys ↔
    isReadable spec = true ∧ ∃ earlier since, specs = earlier ++ spec :: since ∧ spec ∉ since ∧
      (readable since).length < capacity := by
  rw [(tracks_after capacity specs).keys_eq]
  constructor
  · intro hmem
    have hrecent := List.mem_of_mem_take hmem
    obtain ⟨hspecs, hspec⟩ := mem_readable.1 (List.mem_reverse.1 hrecent)
    obtain ⟨earlier, since, rfl, hsince⟩ := exists_last_of_mem hspecs
    exact ⟨hspec, earlier, since, rfl, hsince, (mem_take_recent hspec hsince capacity).1 hmem⟩
  · rintro ⟨hspec, earlier, since, rfl, hsince, hlt⟩
    exact (mem_take_recent hspec hsince capacity).2 hlt

theorem isHit_iff_mem_keys : IsHit capacity specs spec ↔ spec ∈ (after capacity specs).keys := by
  have htracks := tracks_after capacity specs
  rcases htracks.number_served (served_after capacity specs spec) with
    ⟨hmem, reading, ha, earlier, since, b, hspecs, hsince, hb, hreading⟩ | ⟨habsent, hnew⟩
  · refine iff_of_true ⟨earlier, since, _, b, hspecs, hsince, ha, hb, ?_⟩ hmem
    rw [hreading]
  · refine iff_of_false ?_ habsent
    rintro ⟨earlier, since, a, b, hspecs, -, ha, hb, hnumber⟩
    have hlt := htracks.number_lt earlier spec since b hspecs hb
    rw [← hnumber, (hnew a ha).2] at hlt
    exact Nat.lt_irrefl _ hlt

theorem held_iff_mem_keys {a : Answer} (ha : answer capacity specs spec = .ok a) :
    a.held = true ↔ spec ∈ (after capacity specs).keys := by
  rcases (tracks_after capacity specs).number_served (served_after capacity specs spec) with
    ⟨hmem, reading, hanswer, -⟩ | ⟨habsent, hnew⟩
  · rw [ha] at hanswer
    cases hanswer
    exact iff_of_true rfl hmem
  · rw [(hnew a ha).1]
    exact iff_of_false Bool.false_ne_true habsent

theorem size_after (capacity : Nat) (specs : List String) :
    (after capacity specs).size = min capacity (readable specs).length := by
  have hkeys := (tracks_after capacity specs).keys_eq
  have hlength := congrArg List.length hkeys
  rw [keys, List.length_map, List.length_take, recent, List.length_reverse] at hlength
  exact hlength

/-- After any requests of one cache: a request is answered with what reading its specification
gives. It is a hit if and only if the specification can be read, was asked for before, and fewer
others that can be read than the capacity were asked for since. The cache holds as many
specifications as were asked for and can be read, up to its capacity, and one that cannot be read
leaves it as it is. -/
theorem answer_after_requests (capacity : Nat) (specs : List String) (spec : String) :
    (answer capacity specs spec).map (·.range) = VersionRange.parse spec ∧
    (IsHit capacity specs spec ↔
      (∃ range, VersionRange.parse spec = .ok range) ∧
        ∃ earlier since, specs = earlier ++ spec :: since ∧ spec ∉ since ∧
          (readable since).length < capacity) ∧
    (∀ a, answer capacity specs spec = .ok a → (a.held = true ↔ IsHit capacity specs spec)) ∧
    (after capacity (specs ++ [spec])).size =
      min capacity (readable (specs ++ [spec])).length ∧
    ∀ e, VersionRange.parse spec = .error e →
      after capacity (specs ++ [spec]) = after capacity specs := by
  have htracks := tracks_after capacity specs
  have hserved := served_after capacity specs spec
  refine ⟨htracks.range_served hserved, ?_, ?_, size_after capacity _, ?_⟩
  · rw [isHit_iff_mem_keys, mem_keys_after, isReadable_iff]
  · intro a ha
    rw [isHit_iff_mem_keys, held_iff_mem_keys ha]
  · intro e he
    exact htracks.next_eq_of_error hserved he

end RangeCache

end ReleaseCatalog

import ReleaseCatalog.Proofs.Version.Choice
import ReleaseCatalog.Proofs.Version.Front

namespace ReleaseCatalog

open Text.Reading

namespace Family

variable {f : Family} {passed ahead : List Char} {sp : Spelling} {sps : List Spelling}

/-- The names of a family in the text `ahead` that follows `passed`: each is the first that begins
behind the one before it, and takes what the family prefers there. -/
inductive Scans (f : Family) : List Char → List Char → List Spelling → Prop where
  | stop {passed ahead : List Char}
      (hnone : ∀ u v, u ++ v = ahead → ¬ f.Begins (passed ++ u).getLast? v) :
      Scans f passed ahead []
  | find {passed skipped taken rest : List Char} {sp : Spelling} {sps : List Spelling}
      (hskipped : ∀ u v, u ++ v = skipped → v ≠ [] →
        ¬ f.Begins (passed ++ u).getLast? (v ++ (taken ++ rest)))
      (hfirst : first? (nameAfter f (passed ++ skipped).getLast?) (taken ++ rest) = some (sp, rest))
      (hrest : Scans f (passed ++ (skipped ++ taken)) rest sps) :
      Scans f passed (skipped ++ (taken ++ rest)) (sp :: sps)

theorem Writes.ne_nil {w : List Char} (h : f.Writes sp w) : w ≠ [] := by
  obtain ⟨c, hc, -⟩ := h.exists_isDigit
  exact List.ne_nil_of_mem hc

theorem not_begins_nil (before : Option Char) : ¬ f.Begins before [] := by
  rintro ⟨u, sp, w, t, -, hw, h⟩
  obtain ⟨-, hwt⟩ := List.append_eq_nil_iff.1 h.symm
  exact hw.ne_nil (List.append_eq_nil_iff.1 hwt).1

theorem begins_of_first? {before : Option Char} {s : List Char} {way : Spelling × List Char}
    (h : first? (nameAfter f before) s = some way) : f.Begins before s :=
  nameAfter_ne_nil_iff.1 (List.ne_nil_of_mem (mem_of_first? h))

theorem Scans.cons {c : Char} {s : List Char} (hc : ¬ f.Begins passed.getLast? (c :: s))
    (h : f.Scans (passed ++ [c]) s sps) : f.Scans passed (c :: s) sps := by
  cases h with
  | stop hnone =>
    refine .stop fun u v huv => ?_
    rcases List.append_eq_cons_iff.1 huv with ⟨rfl, rfl⟩ | ⟨u, rfl, rfl⟩
    · rwa [List.append_nil]
    · simpa using hnone u v rfl
  | @find _ skipped taken rest sp sps hskipped hfirst hrest =>
    rw [← List.cons_append]
    refine .find (fun u v huv hv => ?_) ?_ ?_
    · rcases List.append_eq_cons_iff.1 huv with ⟨rfl, rfl⟩ | ⟨u, rfl, rfl⟩
      · rwa [List.append_nil]
      · simpa using hskipped u v rfl hv
    · simpa using hfirst
    · simpa using hrest

theorem exists_taken {before : Option Char} {c : Char} {s rest : List Char}
    (h : first? (nameAfter f before) (c :: s) = some (sp, rest)) : ∃ taken, s = taken ++ rest := by
  obtain ⟨u, w, -, hw, hs⟩ := exists_derives_of_first?_nameAfter h
  obtain ⟨d, taken, htaken⟩ := List.exists_cons_of_ne_nil (l := u ++ w) (by simp [hw.1.ne_nil])
  rw [← List.append_assoc, htaken, List.cons_append] at hs
  exact ⟨taken, (List.cons.inj hs).2⟩

/-- Looking for names from a position on, a scan finds the successive names behind the part that is
to be skipped. -/
theorem scans_namesFrom (f : Family) (passed s : List Char) {skip : Nat} (hskip : skip ≤ s.length) :
    f.Scans (passed ++ s.take skip) (s.drop skip) (namesFrom f passed.getLast? skip s) := by
  induction s generalizing passed skip with
  | nil =>
    rw [List.drop_nil]
    refine .stop fun u v huv => ?_
    rw [(List.append_eq_nil_iff.1 huv).2]
    exact not_begins_nil _
  | cons c s ih =>
    have hlast : (passed ++ [c]).getLast? = some c := List.getLast?_concat
    have hnext (k : Nat) (hk : k ≤ s.length) := ih (passed ++ [c]) hk
    rw [hlast] at hnext
    cases skip with
    | succ skip =>
      have hscan := hnext skip (Nat.le_of_succ_le_succ hskip)
      rw [List.append_assoc] at hscan
      exact hscan
    | zero =>
      rw [List.take_zero, List.drop_zero, List.append_nil]
      cases hfirst : first? (nameAfter f passed.getLast?) (c :: s) with
      | none =>
        rw [namesFrom_of_none hfirst]
        have hscan := hnext 0 (Nat.zero_le _)
        rw [List.take_zero, List.append_nil] at hscan
        refine hscan.cons ?_
        rw [← nameAfter_ne_nil_iff, not_not]
        exact first?_eq_none.1 hfirst
      | some way =>
        obtain ⟨sp, rest⟩ := way
        rw [namesFrom_of_some hfirst]
        obtain ⟨taken, rfl⟩ := exists_taken hfirst
        have hlen : (taken ++ rest).length - rest.length = taken.length := by
          rw [List.length_append, Nat.add_sub_cancel]
        have hscan := hnext taken.length (by simp)
        rw [List.take_left, List.drop_left, List.append_assoc] at hscan
        rw [hlen]
        refine @Scans.find f passed [] (c :: taken) rest sp _ ?_ ?_ hscan
        · intro u v huv hv
          exact absurd (List.append_eq_nil_iff.1 huv).2 hv
        · rw [List.append_nil]
          exact hfirst

/-- A text has its successive names in one way. -/
theorem Scans.unique {sps' : List Spelling} (h : f.Scans passed ahead sps)
    (h' : f.Scans passed ahead sps') : sps = sps' := by
  induction h generalizing sps' with
  | stop hnone =>
    cases h' with
    | stop => rfl
    | find _ hfirst _ => exact absurd (begins_of_first? hfirst) (hnone _ _ rfl)
  | @find passed skipped taken rest sp sps hskipped hfirst hrest ih =>
    generalize hahead : skipped ++ (taken ++ rest) = ahead at h'
    cases h' with
    | stop hnone => exact absurd (begins_of_first? hfirst) (hnone _ _ hahead)
    | @find _ skipped' taken' rest' sp' sps' hskipped' hfirst' hrest' =>
      -- Were one name found behind the other, a name would begin in what was skipped before it.
      have hsame : skipped = skipped' := by
        rcases List.append_eq_append_iff.1 hahead with ⟨u, rfl, hu⟩ | ⟨u, rfl, hu⟩
        · by_contra hne
          apply hskipped' skipped u rfl (fun h => hne (by simp [h]))
          rw [← hu]
          exact begins_of_first? hfirst
        · by_contra hne
          apply hskipped skipped' u rfl (fun h => hne (by simp [h]))
          rw [← hu]
          exact begins_of_first? hfirst'
      subst hsame
      have hnames := List.append_cancel_left hahead
      rw [hnames, hfirst'] at hfirst
      cases hfirst
      obtain rfl := List.append_cancel_right hnames
      rw [ih hrest']

theorem scans_iff {s : List Char} : f.Scans [] s sps ↔ sps = f.names s := by
  have hscan := scans_namesFrom f [] s (Nat.zero_le _)
  constructor
  · intro h
    exact h.unique hscan
  · rintro rfl
    exact hscan

theorem Scans.exists_derives (h : f.Scans passed ahead sps) (hsp : sp ∈ sps) :
    ∃ x w y, f.Derives sp w ∧ ahead = x ++ (w ++ y) := by
  induction h with
  | stop => cases hsp
  | @find passed skipped taken rest sp' sps hskipped hfirst hrest ih =>
    rcases List.mem_cons.1 hsp with rfl | hsp
    · obtain ⟨u, w, -, hw, hs⟩ := exists_derives_of_first?_nameAfter hfirst
      exact ⟨skipped ++ u, w, rest, hw, by rw [hs, List.append_assoc]⟩
    · obtain ⟨x, w, y, hw, rfl⟩ := ih hsp
      exact ⟨skipped ++ (taken ++ x), w, y, hw, by simp⟩

end Family

/-- A name that a scan settles for: its numbers can be read, and where only plausible versions are
asked for, its line is one that a release can have. -/
def Spelling.IsAdmitted (plausibleOnly : Bool) (sp : Spelling) : Prop :=
  sp.IsReadable ∧
    (plausibleOnly = true → 8 ≤ sp.components.major ∧ sp.components.major ≤ 99)

namespace Version

variable {p : Bool} {v : Version} {s : List Char}

theorem any_version?_iff {sp : Spelling} :
    (sp.version?.any fun v => !p || v.isPlausible) = true ↔ sp.IsAdmitted p := by
  rw [Option.any_eq_true]
  constructor
  · rintro ⟨v, hv, hok⟩
    obtain ⟨hread, rfl⟩ := Spelling.version?_eq_some_iff.1 hv
    refine ⟨hread, ?_⟩
    rintro rfl
    exact isPlausible_iff.1 hok
  · rintro ⟨hread, hp⟩
    refine ⟨_, Spelling.version?_eq_some_iff.2 ⟨hread, rfl⟩, ?_⟩
    cases p with
    | false => rfl
    | true => exact isPlausible_iff.2 (hp rfl)

/-- The first version that a scan finds is that of the first name admitted. -/
theorem find?_found_anywhere_eq_some_iff {f : Family} :
    (found .anywhere f s).find? (fun v => !p || v.isPlausible) = some v ↔
      ∃ before sp after, f.Scans [] s (before ++ sp :: after) ∧ sp.IsAdmitted p ∧
        v = sp.components.version ∧ ∀ other ∈ before, ¬ other.IsAdmitted p := by
  rw [found, List.find?_filterMap, Option.bind_eq_some_iff]
  constructor
  · rintro ⟨sp, hfind, hv⟩
    obtain ⟨hok, before, after, hnames, hbefore⟩ := List.find?_eq_some_iff_append.1 hfind
    refine ⟨before, sp, after, Family.scans_iff.2 hnames.symm, any_version?_iff.1 hok, ?_, ?_⟩
    · exact (Spelling.version?_eq_some_iff.1 hv).2
    · intro other hother
      rw [← any_version?_iff]
      simpa using hbefore other hother
  · rintro ⟨before, sp, after, hscan, hsp, rfl, hbefore⟩
    refine ⟨sp, List.find?_eq_some_iff_append.2 ⟨any_version?_iff.2 hsp, before, after, ?_, ?_⟩,
      Spelling.version?_eq_some_iff.2 ⟨hsp.1, rfl⟩⟩
    · exact (Family.scans_iff.1 hscan).symm
    · intro other hother
      have hnot := hbefore other hother
      rw [← any_version?_iff] at hnot
      simpa using hnot

theorem find?_found_anywhere_eq_none_iff {f : Family} :
    (found .anywhere f s).find? (fun v => !p || v.isPlausible) = none ↔
      ∀ names, f.Scans [] s names → ∀ sp ∈ names, ¬ sp.IsAdmitted p := by
  rw [List.find?_eq_none]
  constructor
  · intro h names hscan sp hsp hadmitted
    obtain rfl := Family.scans_iff.1 hscan
    obtain ⟨v, hv, hok⟩ := (Option.any_eq_true _ _).1 (any_version?_iff.2 hadmitted)
    exact h v (List.mem_filterMap.2 ⟨sp, hsp, hv⟩) hok
  · intro h v hmem hok
    obtain ⟨sp, hsp, hv⟩ := List.mem_filterMap.1 hmem
    have hadmitted := any_version?_iff.1 ((Option.any_eq_true _ _).2 ⟨v, hv, hok⟩)
    exact h _ (Family.scans_iff.2 rfl) sp hsp hadmitted

/-- A scan settles for the first admitted one of a family's successive leftmost names, where the
families tried earlier have none; the part of the text that it reports is read, as a whole, as the
same version. -/
theorem parse_anywhere_leftmost :
    (∀ f n names, Family.Scans f [] n names ↔ names = f.names n) ∧
    ∀ p input v, parse .anywhere p input = .ok v ↔
      ∃ f before sp after x w y,
        Family.Scans f [] (normalizeName input) (before ++ sp :: after) ∧
        normalizeName input = x ++ (w ++ y) ∧ f.Derives sp w ∧ v ∈ found .whole f w ∧
        sp.IsAdmitted p ∧ v = sp.components.version ∧
        (∀ other ∈ before, ¬ other.IsAdmitted p) ∧
        ∀ g ∈ f.earlier, ∀ names, Family.Scans g [] (normalizeName input) names →
          ∀ other ∈ names, ¬ other.IsAdmitted p := by
  refine ⟨fun f n names => Family.scans_iff, fun p input v => ?_⟩
  rw [parse_eq_ok, select?_eq_some_iff]
  simp only [find?_found_anywhere_eq_some_iff, find?_found_anywhere_eq_none_iff]
  constructor
  · rintro ⟨f, ⟨before, sp, after, hscan, hsp, rfl, hbefore⟩, hearlier⟩
    have hmem : sp ∈ before ++ sp :: after := List.mem_append_right before (List.mem_cons_self ..)
    obtain ⟨x, w, y, hw, hn⟩ := hscan.exists_derives hmem
    have hwhole := mem_found_whole_iff.2 ⟨sp, hw, hsp.1, rfl⟩
    exact ⟨f, before, sp, after, x, w, y, hscan, hn, hw, hwhole, hsp, rfl, hbefore, hearlier⟩
  · rintro ⟨f, before, sp, after, -, -, -, hscan, -, -, -, hsp, hv, hbefore, hearlier⟩
    exact ⟨f, ⟨before, sp, after, hscan, hsp, hv, hbefore⟩, hearlier⟩

/-- A number whose line no release can have is passed over only where plausible versions are asked
for. -/
example :
    parse .anywhere true "build 2020 of jdk-11.0.4+11" =
        .ok ⟨⟨11, 0, 4, none, none, 11, none, none⟩, "11.0.4+11"⟩ ∧
      parse .anywhere false "build 2020 of jdk-11.0.4+11" =
        .ok ⟨⟨2020, 0, 0, none, none, 0, none, none⟩, "2020.0.0"⟩ := by
  decide +kernel

end Version

end ReleaseCatalog

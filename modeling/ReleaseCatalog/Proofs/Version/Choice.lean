import ReleaseCatalog.Proofs.Version.Derivation

namespace ReleaseCatalog

theorem findSome?_find?_eq_some_iff {α β : Type} {found : α → List β} {ok : β → Bool}
    {as : List α} {b : β}
    (hsame : ∀ {a a' : α} {x y : β}, x ∈ found a → y ∈ found a' → x = y) :
    as.findSome? (fun a => (found a).find? ok) = some b ↔
      ok b = true ∧ ∃ a ∈ as, b ∈ found a := by
  induction as with
  | nil => simp
  | cons a as ih =>
    rw [List.findSome?_cons]
    cases hfind : (found a).find? ok with
    | some x =>
      have hmem := List.mem_of_find?_eq_some hfind
      have hok := List.find?_some hfind
      constructor
      · intro h
        obtain rfl := Option.some.inj h
        exact ⟨hok, a, List.mem_cons_self .., hmem⟩
      · rintro ⟨-, a', -, hb⟩
        rw [hsame hmem hb]
    | none =>
      rw [ih]
      apply and_congr_right
      intro hb
      constructor
      · rintro ⟨a', ha', hmem⟩
        exact ⟨a', List.mem_cons_of_mem a ha', hmem⟩
      · rintro ⟨a', ha', hmem⟩
        rcases List.mem_cons.1 ha' with rfl | ha'
        · exact absurd hb (List.find?_eq_none.1 hfind b hmem)
        · exact ⟨a', ha', hmem⟩

namespace Version

variable {n : List Char} {f g : Family} {v w : Version}

/-- A family reads a whole text as it derives it. -/
theorem mem_found_whole_iff : v ∈ found .whole f n ↔
    ∃ sp, f.Derives sp n ∧ sp.IsReadable ∧ v = sp.components.version := by
  constructor
  · intro h
    obtain ⟨r, rfl, rfl, rfl, hr⟩ := ReleaseName.exists_of_mem_found_whole h
    refine ⟨r.spelling, ReleaseName.derives_spelling hr, ?_⟩
    exact Spelling.version?_eq_some_iff.1 r.version?_spelling
  · rintro ⟨sp, hderives, hsp⟩
    obtain ⟨r, rfl, rfl, rfl, hr⟩ := ReleaseName.exists_of_derives hderives hsp.1
    have hversion := Spelling.version?_eq_some_iff.2 hsp
    rw [r.version?_spelling] at hversion
    rw [ReleaseName.found_whole hr, Option.some.inj hversion]
    exact List.mem_singleton_self v

theorem select?_of_mem_found_whole (h : v ∈ found .whole f n) :
    select? .whole false n = some v := by
  obtain ⟨r, -, rfl, rfl, hr⟩ := ReleaseName.exists_of_mem_found_whole h
  exact ReleaseName.select?_whole hr

theorem eq_of_mem_found_whole (hv : v ∈ found .whole f n) (hw : w ∈ found .whole g n) : v = w := by
  have hselect := select?_of_mem_found_whole hv
  rw [select?_of_mem_found_whole hw] at hselect
  exact (Option.some.inj hselect).symm

theorem select?_whole_eq_some_iff {p : Bool} : select? .whole p n = some v ↔
    (p = true → v.isPlausible = true) ∧ ∃ f, v ∈ found .whole f n := by
  rw [select?, findSome?_find?_eq_some_iff eq_of_mem_found_whole]
  apply and_congr
  · cases p <;> simp
  · constructor
    · rintro ⟨f, -, hf⟩
      exact ⟨f, hf⟩
    · rintro ⟨f, hf⟩
      exact ⟨f, by cases f <;> decide, hf⟩

theorem findSome?_found_whole_of_perm {fs : List Family} (h : fs.Perm Family.all) (p : Bool)
    (n : List Char) :
    fs.findSome? (fun f => (found .whole f n).find? fun v => !p || v.isPlausible) =
      select? .whole p n := by
  ext1 v
  rw [select?, findSome?_find?_eq_some_iff eq_of_mem_found_whole,
    findSome?_find?_eq_some_iff eq_of_mem_found_whole]
  simp only [h.mem_iff]

theorem isPlausible_iff : v.isPlausible = true ↔ 8 ≤ v.major ∧ v.major ≤ 99 := by
  rw [isPlausible, Bool.and_eq_true, decide_eq_true_eq, decide_eq_true_eq]

theorem parse_whole_true_iff {s : String} :
    parse .whole true s = .ok v ↔
      parse .whole false s = .ok v ∧ 8 ≤ v.major ∧ v.major ≤ 99 := by
  rw [parse_eq_ok, parse_eq_ok, select?_whole_eq_some_iff, select?_whole_eq_some_iff,
    ← isPlausible_iff]
  simp [and_comm]

/-- A family reads the whole of a text where it derives it with numbers that can be read, and any
two that do read one version. So the families can be tried in any order, and the plausible versions
that are read are those of all versions read. -/
theorem parse_whole_any_order :
    (∀ n f v, v ∈ found .whole f n ↔
      ∃ sp, Family.Derives f sp n ∧ sp.IsReadable ∧ v = sp.components.version) ∧
    (∀ n f g v w, v ∈ found .whole f n → w ∈ found .whole g n → v = w) ∧
    (∀ fs : List Family, fs.Perm Family.all → ∀ p n,
      fs.findSome? (fun f => (found .whole f n).find? fun v => !p || v.isPlausible) =
        select? .whole p n) ∧
    ∀ s v, parse .whole true s = .ok v ↔
      parse .whole false s = .ok v ∧ 8 ≤ v.major ∧ v.major ≤ 99 := by
  refine ⟨fun n f v => mem_found_whole_iff, ?_, ?_, fun s v => parse_whole_true_iff⟩
  · intro n f g v w hv hw
    exact eq_of_mem_found_whole hv hw
  · intro fs hfs p n
    exact findSome?_found_whole_of_perm hfs p n

/-- What a dated build of line 13 spells. -/
def dated13 : Version :=
  ⟨⟨13, 0, 0, none, none, 0, none, some "2019-10-30-23-10"⟩, "13.0.0+0.2019-10-30-23-10"⟩

/-- A dated build without a mark is a version string too, so it can be tried as one first. -/
theorem parse_whole_any_order_dated :
    found .whole .nightly "13-2019-10-30-23-10".toList = [dated13] ∧
    found .whole .jep223 "13-2019-10-30-23-10".toList ≠ [] ∧
    (∀ v ∈ found .whole .jep223 "13-2019-10-30-23-10".toList, v = dated13) ∧
    [Family.jep223, .update, .legacy, .nightly].findSome? (fun f =>
      (found .whole f "13-2019-10-30-23-10".toList).find? fun v => !true || v.isPlausible) =
        some dated13 := by
  have hnightly : found .whole .nightly "13-2019-10-30-23-10".toList = [dated13] := by
    decide +kernel
  obtain ⟨-, hsame, horder, -⟩ := parse_whole_any_order
  refine ⟨hnightly, by decide +kernel, ?_, ?_⟩
  · intro v hv
    exact hsame _ .jep223 .nightly v dated13 hv (by rw [hnightly]; exact List.mem_singleton_self _)
  · rw [horder _ (by decide)]
    decide +kernel

end Version

end ReleaseCatalog

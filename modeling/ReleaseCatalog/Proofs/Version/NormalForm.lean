import ReleaseCatalog.Proofs.Text.Blank
import ReleaseCatalog.Version.Name

namespace ReleaseCatalog

open Text (isBlank trim trimStart trimEnd percentBytes percentDecode)

namespace Text

/-- `t` is `s` without the blanks at its ends. -/
structure IsTrimmed (s t : List Char) : Prop where
  exists_blanks : ∃ x y, s = x ++ (t ++ y) ∧
    (∀ c ∈ x, isBlank c = true) ∧ ∀ c ∈ y, isBlank c = true
  isBlank_head? : ∀ c ∈ t.head?, isBlank c = false
  isBlank_getLast? : ∀ c ∈ t.getLast?, isBlank c = false

variable {s t : List Char}

theorem exists_trimStart (s : List Char) :
    ∃ x, s = x ++ trimStart s ∧ ∀ c ∈ x, isBlank c = true :=
  ⟨s.takeWhile isBlank, List.takeWhile_append_dropWhile.symm,
    List.all_eq_true.1 List.all_takeWhile⟩

theorem exists_trimEnd (s : List Char) : ∃ y, s = trimEnd s ++ y ∧ ∀ c ∈ y, isBlank c = true := by
  obtain ⟨y, hy, hblank⟩ := exists_trimStart s.reverse
  refine ⟨y.reverse, ?_, fun c hc => hblank c (List.mem_reverse.1 hc)⟩
  rw [trimEnd, ← List.reverse_append]
  exact List.reverse_eq_iff.1 hy

theorem isTrimmed_iff : IsTrimmed s t ↔ t = trim s := by
  constructor
  · rintro ⟨⟨x, y, rfl, hx, hy⟩, hhead, hlast⟩
    by_cases ht : t = []
    · subst ht
      refine (trim_of_isBlank ?_).symm
      intro c hc
      exact (List.mem_append.1 hc).elim (hx c) (hy c)
    · rw [trim_append ht hhead hlast, trimStart_of_isBlank hx, trimEnd_of_isBlank hy,
        List.nil_append, List.append_nil]
  · rintro rfl
    obtain ⟨x, hx, hxblank⟩ := exists_trimStart s
    obtain ⟨y, hy, hyblank⟩ := exists_trimEnd (trimStart s)
    refine ⟨⟨x, y, ?_, hxblank, hyblank⟩, fun c => isBlank_head?_trim,
      fun c => isBlank_getLast?_trim⟩
    rw [trim, ← hy]
    exact hx

/-- `t` has the UTF-8 form that `s` stands for with its escapes resolved, or is `s` itself where
that is no UTF-8. -/
def IsDecoded (s t : List Char) : Prop :=
  t.utf8Encode = ⟨(percentBytes s).toArray⟩ ∨
    t = s ∧ ∀ u : List Char, u.utf8Encode ≠ ⟨(percentBytes s).toArray⟩

theorem utf8Encode_of_utf8Decode? {b : ByteArray} {a : Array Char} (h : b.utf8Decode? = some a) :
    a.toList.utf8Encode = b := by
  have hsome : b.utf8Decode?.isSome = true := by
    rw [h]
    rfl
  have hencode := ByteArray.utf8Encode_get_utf8Decode? (b := b) (h := hsome)
  simpa only [h, Option.get_some] using hencode

theorem isDecoded_iff : IsDecoded s t ↔ t = percentDecode s := by
  rw [IsDecoded, percentDecode]
  cases h : (ByteArray.mk (percentBytes s).toArray).utf8Decode? with
  | some a =>
    have ha := utf8Encode_of_utf8Decode? h
    constructor
    · rintro (ht | ⟨-, hnone⟩)
      · rw [← ht, List.utf8Decode?_utf8Encode] at h
        rw [← Option.some.inj h]
      · exact absurd ha (hnone _)
    · rintro rfl
      exact .inl ha
  | none =>
    have hnone (u : List Char) : u.utf8Encode ≠ ⟨(percentBytes s).toArray⟩ := by
      intro hu
      rw [← hu, List.utf8Decode?_utf8Encode] at h
      cases h
    constructor
    · rintro (ht | ⟨rfl, -⟩)
      · exact absurd ht (hnone t)
      · rfl
    · rintro rfl
      exact .inr ⟨rfl, hnone⟩

end Text

/-- A brand with its mark: `openj9` or `dragonwell` in any case, and perhaps another mark with
letters, digits, dots and marks behind it. -/
def IsBrand (s : List Char) : Prop :=
  ∃ c b t, s = c :: (b ++ t) ∧ (c = '-' ∨ c = '_') ∧ b.map Char.toLower ∈ brands ∧
    (t = [] ∨ ∃ d u, t = d :: u ∧ (d = '-' ∨ d = '_') ∧ ∀ e ∈ u, isBrandTail e = true)

theorem isBranding_iff {s : List Char} : isBranding s = true ↔ IsBrand s := by
  constructor
  · intro h
    cases s with
    | nil => cases h
    | cons c s =>
      rw [isBranding, Bool.and_eq_true, List.any_eq_true] at h
      obtain ⟨hc, brand, hbrand, h⟩ := h
      rw [Bool.and_eq_true, beq_iff_eq] at h
      refine ⟨c, s.take brand.length, s.drop brand.length, ?_, by simpa using hc, ?_, ?_⟩
      · rw [List.take_append_drop]
      · rw [h.1]
        exact hbrand
      · have htail := h.2
        cases hdrop : s.drop brand.length with
        | nil => exact .inl rfl
        | cons d u =>
          rw [hdrop] at htail
          refine .inr ⟨d, u, rfl, ?_, ?_⟩
          · simpa using (Bool.and_eq_true_iff.1 htail).1
          · exact List.all_eq_true.1 (Bool.and_eq_true_iff.1 htail).2
  · rintro ⟨c, b, t, rfl, hc, hb, ht⟩
    have hlength : (b.map Char.toLower).length = b.length := List.length_map _
    rw [isBranding, Bool.and_eq_true, List.any_eq_true]
    refine ⟨by simpa using hc, _, hb, ?_⟩
    rw [hlength, List.take_left, List.drop_left, beq_self_eq_true, Bool.true_and]
    rcases ht with rfl | ⟨d, u, rfl, hd, hu⟩
    · rfl
    · exact Bool.and_eq_true_iff.2 ⟨by simpa using hd, List.all_eq_true.2 hu⟩

/-- `t` is `s` without the longest brand at its end, or `s` itself where no brand ends it. -/
def IsCut (s t : List Char) : Prop :=
  t = s ∧ (∀ u, u <:+ s → ¬ IsBrand u) ∨
    ∃ u, s = t ++ u ∧ IsBrand u ∧ ∀ v, v <:+ s → IsBrand v → v <:+ u

theorem isCut_withoutBranding (s : List Char) : IsCut s (withoutBranding s) := by
  induction s with
  | nil =>
    refine .inl ⟨rfl, ?_⟩
    rintro u hu ⟨c, b, t, rfl, -⟩
    simpa using hu.length_le
  | cons c s ih =>
    rw [withoutBranding]
    split
    · next h => exact .inr ⟨c :: s, rfl, isBranding_iff.1 h, fun v hv _ => hv⟩
    · next h =>
      rw [isBranding_iff] at h
      rcases ih with ⟨heq, hnone⟩ | ⟨u, hu, hbrand, hlongest⟩
      · refine .inl ⟨by rw [heq], fun v hv => ?_⟩
        rcases List.suffix_cons_iff.1 hv with rfl | hv
        · exact h
        · exact hnone v hv
      · refine .inr ⟨u, by rw [List.cons_append, ← hu], hbrand, fun v hv hvbrand => ?_⟩
        rcases List.suffix_cons_iff.1 hv with rfl | hv
        · exact absurd hvbrand h
        · exact hlongest v hv hvbrand

theorem IsCut.eq {s t u : List Char} (ht : IsCut s t) (hu : IsCut s u) : t = u := by
  rcases ht with ⟨rfl, hnone⟩ | ⟨b, hb, hbrand, hlongest⟩ <;>
    rcases hu with ⟨rfl, hnone'⟩ | ⟨d, hd, hbrand', hlongest'⟩
  · rfl
  · exact absurd hbrand' (hnone d ⟨u, hd.symm⟩)
  · exact absurd hbrand (hnone' b ⟨t, hb.symm⟩)
  · have hsame : b = d := by
      have hbd := hlongest' b ⟨t, hb.symm⟩ hbrand
      have hdb := hlongest d ⟨u, hd.symm⟩ hbrand'
      exact hbd.eq_of_length (Nat.le_antisymm hbd.length_le hdb.length_le)
    rw [hsame, hd] at hb
    exact (List.append_cancel_right hb).symm

theorem isCut_iff {s t : List Char} : IsCut s t ↔ t = withoutBranding s := by
  constructor
  · exact fun h => h.eq (isCut_withoutBranding s)
  · rintro rfl
    exact isCut_withoutBranding s

/-- `n` is what is left of `s` without the blanks at its ends, with its escapes resolved, without
the brand at its end, and once more without the blanks at its ends. -/
def IsNormalForm (s n : List Char) : Prop :=
  ∃ t d u, Text.IsTrimmed s t ∧ Text.IsDecoded t d ∧ IsCut d u ∧ Text.IsTrimmed u n

theorem isNormalForm_iff {s : String} {n : List Char} :
    IsNormalForm s.toList n ↔ n = normalizeName s := by
  simp only [IsNormalForm, Text.isTrimmed_iff, Text.isDecoded_iff, isCut_iff, normalizeName]
  constructor
  · rintro ⟨_, _, _, rfl, rfl, rfl, hn⟩
    exact hn
  · intro hn
    exact ⟨_, _, _, rfl, rfl, rfl, hn⟩

end ReleaseCatalog

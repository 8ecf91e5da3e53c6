import ReleaseCatalog.Proofs.Text.Percent
import ReleaseCatalog.Proofs.Version.Recognition

namespace ReleaseCatalog

open Text (isBlank trim)

theorem isAlphanum_of_toLower {c : Char} (h : c.toLower.isAlphanum = true) :
    c.isAlphanum = true := by
  by_cases hupper : c.val ≥ 'A'.val ∧ c.val ≤ 'Z'.val
  · have hc : c.isUpper = true := decide_eq_true hupper
    have halpha : c.isAlpha = true := congrArg (· || c.isLower) hc
    exact congrArg (· || c.isDigit) halpha
  · have hsame : c.toLower = c := dif_neg hupper
    rwa [hsame] at h

theorem isBrandTail_of_mem_brand {b : List Char} (h : b.map Char.toLower ∈ brands) {c : Char}
    (hc : c ∈ b) : isBrandTail c = true := by
  have hall : ∀ brand ∈ brands, brand.all Char.isAlphanum = true := by decide
  have hlower := List.all_eq_true.1 (hall _ h) _ (List.mem_map_of_mem hc)
  simp [isBrandTail, isAlphanum_of_toLower hlower]

theorem isBrandTail_of_isMark {c : Char} (h : c = '-' ∨ c = '_') : isBrandTail c = true := by
  rcases h with rfl | rfl <;> rfl

theorem isMark_of_mem_brand {b : List Char} (h : b.map Char.toLower ∈ brands) {c : Char}
    (hc : c ∈ b) : ¬ (c = '-' ∨ c = '_') := by
  have hall : ∀ brand ∈ brands, '-' ∉ brand ∧ '_' ∉ brand := by decide
  have hmem := List.mem_map_of_mem (f := Char.toLower) hc
  rintro (rfl | rfl)
  · exact (hall _ h).1 hmem
  · exact (hall _ h).2 hmem

theorem isBrandTail_of_isBlank {c : Char} (h : isBlank c = true) : isBrandTail c = false :=
  Text.forall_isBlank (P := fun c => isBrandTail c = false) (by decide) h

namespace IsBrand

variable {s u w : List Char}

theorem exists_cons (h : IsBrand w) :
    ∃ c t, w = c :: t ∧ (c = '-' ∨ c = '_') ∧ ∀ d ∈ t, isBrandTail d = true := by
  obtain ⟨c, b, t, rfl, hc, hb, ht⟩ := h
  refine ⟨c, b ++ t, rfl, hc, ?_⟩
  rw [List.forall_mem_append]
  refine ⟨fun d hd => isBrandTail_of_mem_brand hb hd, ?_⟩
  rcases ht with rfl | ⟨d, u, rfl, hd, hu⟩
  · nofun
  · rw [List.forall_mem_cons]
    exact ⟨isBrandTail_of_isMark hd, hu⟩

/-- A brand may follow a brand, as its tail. -/
theorem append (hu : IsBrand u) (hw : IsBrand w) : IsBrand (u ++ w) := by
  obtain ⟨c, b, t, rfl, hc, hb, ht⟩ := hu
  obtain ⟨d, v, rfl, hd, hv⟩ := hw.exists_cons
  refine ⟨c, b, t ++ d :: v, by simp, hc, hb, .inr ?_⟩
  rcases ht with rfl | ⟨e, u, rfl, he, hu⟩
  · exact ⟨d, v, rfl, hd, hv⟩
  · refine ⟨e, u ++ d :: v, rfl, he, ?_⟩
    rw [List.forall_mem_append, List.forall_mem_cons]
    exact ⟨hu, isBrandTail_of_isMark hd, hv⟩

/-- No brand reaches over the mark of another, so what stands in front of that mark is a brand. -/
theorem of_append (h : IsBrand (u ++ w)) (hu : u ≠ []) (hw : IsBrand w) : IsBrand u := by
  obtain ⟨c, b, t, heq, hc, hb, ht⟩ := h
  obtain ⟨d, v, rfl, hd, -⟩ := hw.exists_cons
  obtain ⟨c', u, rfl⟩ := List.exists_cons_of_ne_nil hu
  obtain ⟨rfl, hrest⟩ := List.cons.inj heq
  obtain ⟨x, rfl, rfl⟩ := prefix_of_head (p := fun e => decide ¬ (e = '-' ∨ e = '_'))
    (fun e he => decide_eq_true (isMark_of_mem_brand hb he))
    (fun e he => by
      obtain rfl := Option.some.inj he
      exact decide_eq_false (not_not.2 hd)) hrest.symm
  refine ⟨c', b, x, rfl, hc, hb, ?_⟩
  cases x with
  | nil => exact .inl rfl
  | cons e x =>
    obtain hnil | ⟨e', y, hy, he, htail⟩ := ht
    · cases hnil
    · obtain ⟨rfl, rfl⟩ := List.cons.inj hy
      exact .inr ⟨e, x, rfl, he, (List.forall_mem_append.1 htail).1⟩

/-- A brand behind a name goes together with the brand of the name. -/
theorem withoutBranding_append (hw : IsBrand w) (s : List Char) :
    withoutBranding (s ++ w) = withoutBranding s := by
  induction s with
  | nil =>
    obtain ⟨c, t, rfl, -⟩ := hw.exists_cons
    exact if_pos (isBranding_iff.2 hw)
  | cons c s ih =>
    have hsame : isBranding (c :: (s ++ w)) = isBranding (c :: s) := by
      rw [Bool.eq_iff_iff, isBranding_iff, isBranding_iff]
      exact ⟨fun h => h.of_append (List.cons_ne_nil c s) hw, fun h => h.append hw⟩
    rw [List.cons_append, withoutBranding, withoutBranding, hsame, ih]

theorem isBrandTail (h : IsBrand w) : ∀ c ∈ w, ReleaseCatalog.isBrandTail c = true := by
  obtain ⟨c, t, rfl, hc, ht⟩ := h.exists_cons
  rw [List.forall_mem_cons]
  exact ⟨isBrandTail_of_isMark hc, ht⟩

theorem unescaped (h : IsBrand w) : '%' ∉ w := by
  intro hmem
  have htail := h.isBrandTail _ hmem
  revert htail
  decide

theorem isBlank (h : IsBrand w) : ∀ c ∈ w, Text.isBlank c = false := by
  intro c hc
  apply eq_false_of_ne_true
  intro hblank
  have htail := h.isBrandTail c hc
  rw [isBrandTail_of_isBlank hblank] at htail
  cases htail

end IsBrand

/-- A name as it stands without decoration: no percent sign is in it, and no blank at its ends. -/
structure IsBare (s : List Char) : Prop where
  unescaped : '%' ∉ s
  isBlank_head? : ∀ c ∈ s.head?, isBlank c = false
  isBlank_getLast? : ∀ c ∈ s.getLast?, isBlank c = false

theorem IsBare.append {s w : List Char} (hs : IsBare s) (hw : IsBrand w) : IsBare (s ++ w) where
  unescaped := by
    rw [List.mem_append, not_or]
    exact ⟨hs.unescaped, hw.unescaped⟩
  isBlank_head? c hc := by
    rw [List.head?_append] at hc
    cases hhead : s.head? with
    | none =>
      rw [hhead, Option.none_or] at hc
      exact hw.isBlank c (List.mem_of_head? hc)
    | some d =>
      rw [hhead, Option.some_or] at hc
      exact hs.isBlank_head? c (hhead.trans hc)
  isBlank_getLast? c hc := by
    obtain ⟨d, t, rfl, -⟩ := hw.exists_cons
    rw [List.getLast?_append_of_ne_nil _ (List.cons_ne_nil d t)] at hc
    exact hw.isBlank c (List.mem_of_getLast? hc)

theorem IsBare.normalizeName_eq {s e x y : List Char} (hs : IsBare s) (he : Text.IsEscaping s e)
    (hx : ∀ c ∈ x, isBlank c = true) (hy : ∀ c ∈ y, isBlank c = true) :
    normalizeName (String.ofList (x ++ (e ++ y))) = trim (withoutBranding s) := by
  have hhead : ∀ c ∈ e.head?, isBlank c = false := by
    intro c hc
    apply eq_false_of_ne_true
    intro hblank
    rw [hs.isBlank_head? c (he.mem_head? hc hblank)] at hblank
    cases hblank
  have hlast : ∀ c ∈ e.getLast?, isBlank c = false := by
    intro c hc
    apply eq_false_of_ne_true
    intro hblank
    rw [hs.isBlank_getLast? c (he.mem_getLast? hc hblank)] at hblank
    cases hblank
  have htrim : trim (x ++ (e ++ y)) = e :=
    (Text.isTrimmed_iff.1 ⟨⟨x, y, rfl, hx, hy⟩, hhead, hlast⟩).symm
  rw [normalizeName, String.toList_ofList, htrim, he.percentDecode_eq hs.unescaped]

theorem IsBare.normalizeName_decorated {s w e x y : List Char} (hs : IsBare s)
    (hw : w = [] ∨ IsBrand w) (he : Text.IsEscaping (s ++ w) e)
    (hx : ∀ c ∈ x, isBlank c = true) (hy : ∀ c ∈ y, isBlank c = true) :
    normalizeName (String.ofList (x ++ (e ++ y))) = normalizeName (String.ofList s) := by
  have hself : normalizeName (String.ofList s) = trim (withoutBranding s) := by
    have h := hs.normalizeName_eq (.refl s) (x := []) (y := []) nofun nofun
    rwa [List.nil_append, List.append_nil] at h
  rw [hself]
  rcases hw with rfl | hw
  · rw [List.append_nil] at he
    exact hs.normalizeName_eq he hx hy
  · rw [(hs.append hw).normalizeName_eq he hx hy, hw.withoutBranding_append]

namespace Version

/-- A name is read alike with and without decoration: a brand behind it, any of the characters
escaped, and blanks around all of it. -/
theorem parse_decorated {s w e x y : List Char} (hs : IsBare s) (hw : w = [] ∨ IsBrand w)
    (he : Text.IsEscaping (s ++ w) e) (hx : ∀ c ∈ x, isBlank c = true)
    (hy : ∀ c ∈ y, isBlank c = true) (extent : Extent) (plausibleOnly : Bool) :
    (∃ v, parse extent plausibleOnly (String.ofList (x ++ (e ++ y))) = .ok v ∧
        parse extent plausibleOnly (String.ofList s) = .ok v) ∨
      parse extent plausibleOnly (String.ofList (x ++ (e ++ y))) =
          .error ⟨String.ofList (x ++ (e ++ y))⟩ ∧
        parse extent plausibleOnly (String.ofList s) = .error ⟨String.ofList s⟩ := by
  rw [parse, parse, hs.normalizeName_decorated hw he hx hy]
  cases select? extent plausibleOnly (normalizeName (String.ofList s)) with
  | some v => exact .inl ⟨v, rfl, rfl⟩
  | none => exact .inr ⟨rfl, rfl⟩

/-- A name with a brand, decorated with one more brand, an escape in front of its own, and blanks. -/
theorem parse_decorated_rebranded :
    IsBare "13-openj9".toList ∧ IsBrand "_DragonWell-1".toList ∧
      Text.IsEscaping ("13-openj9".toList ++ "_DragonWell-1".toList)
        "13%2Dopenj9_DragonWell-1".toList ∧
      parse .whole true " 13%2Dopenj9_DragonWell-1\t" =
        .ok ⟨⟨13, 0, 0, none, none, 0, none, none⟩, "13.0.0"⟩ ∧
      parse .whole true "13-openj9" = .ok ⟨⟨13, 0, 0, none, none, 0, none, none⟩, "13.0.0"⟩ := by
  have hbare : IsBare "13-openj9".toList :=
    ⟨by decide, by rintro _ ⟨⟩; rfl, by rintro _ ⟨⟩; rfl⟩
  have hbrand : IsBrand "_DragonWell-1".toList := isBranding_iff.1 (by decide)
  have hescaping : Text.IsEscaping ("13-openj9".toList ++ "_DragonWell-1".toList)
      "13%2Dopenj9_DragonWell-1".toList := by
    have hescape : List.Forall₂ Text.IsEscape (String.utf8EncodeChar '-') [['%', '2', 'D']] :=
      .cons ⟨'2', 'D', rfl, .inl rfl, .inr rfl⟩ .nil
    exact .kept '1' (.kept '3' (.escaped hescape (.refl _)))
  have hplain : parse .whole true "13-openj9" =
      .ok ⟨⟨13, 0, 0, none, none, 0, none, none⟩, "13.0.0"⟩ := by decide +kernel
  have hparse := parse_decorated hbare (.inr hbrand) hescaping
    (List.forall_mem_singleton.2 (show Text.isBlank ' ' = true from rfl))
    (List.forall_mem_singleton.2 (show Text.isBlank '\t' = true from rfl)) .whole true
  rw [show String.ofList "13-openj9".toList = "13-openj9" by decide, hplain] at hparse
  rcases hparse with ⟨v, hv, heq⟩ | ⟨-, hfail⟩
  · cases heq
    exact ⟨hbare, hbrand, hescaping, hv, hplain⟩
  · cases hfail

end Version

end ReleaseCatalog

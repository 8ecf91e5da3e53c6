import ReleaseCatalog.Proofs.Version.Grammar
import ReleaseCatalog.Proofs.Version.NormalForm

namespace ReleaseCatalog

open Text (isBlank isDigit trim trimStart trimEnd)

/-- A text that begins as a brand at the end of a name does: a mark, a brand in any case, and then
nothing or another mark. -/
def OpensWithBrand (s : List Char) : Prop :=
  ∃ c b t, s = c :: (b ++ t) ∧ (c = '-' ∨ c = '_') ∧ b.map Char.toLower ∈ brands ∧
    ∀ d ∈ t.head?, d = '-' ∨ d = '_'

theorem opensWithBrand_of_isBranding {s : List Char} (h : isBranding s = true) :
    OpensWithBrand s := by
  obtain ⟨c, b, t, rfl, hc, hb, ht⟩ := isBranding_iff.1 h
  refine ⟨c, b, t, rfl, hc, hb, fun d hd => ?_⟩
  rcases ht with rfl | ⟨e, u, rfl, he, -⟩
  · cases hd
  · cases hd
    exact he

/-- No part of the text to its end begins as a brand does. -/
def IsUnbranded (s : List Char) : Prop := ∀ u, u <:+ s → ¬ OpensWithBrand u

theorem IsUnbranded.withoutBranding_eq {s : List Char} (h : IsUnbranded s) :
    withoutBranding s = s := by
  induction s with
  | nil => rfl
  | cons c s ih =>
    have hwhole : isBranding (c :: s) ≠ true := fun hbrand =>
      h _ (List.suffix_refl _) (opensWithBrand_of_isBranding hbrand)
    have hrest : IsUnbranded s := fun u hu => h u (hu.trans (List.suffix_cons c s))
    rw [withoutBranding, if_neg hwhole, ih hrest]

theorem ne_nil_of_mem_brands {b : List Char} (h : b.map Char.toLower ∈ brands) : b ≠ [] := by
  rintro rfl
  revert h
  decide

theorem isBlank_of_mem_brand {b : List Char} (h : b.map Char.toLower ∈ brands) {c : Char}
    (hc : c ∈ b) : isBlank c = false := by
  have hall : ∀ brand ∈ brands, brand.any isBlank = false := by decide
  have hlower := List.any_eq_false.1 (hall _ h) _ (List.mem_map_of_mem hc)
  apply eq_false_of_ne_true
  intro hblank
  exact hlower (Text.isBlank_toLower hblank)

theorem isUnbranded_nil : IsUnbranded [] := by
  rintro u hu ⟨c, b, t, rfl, -⟩
  simpa using hu.length_le

theorem suffix_append_cases {α : Type} {u a b : List α} (h : u <:+ a ++ b) :
    u <:+ b ∨ ∃ c v, c :: v <:+ a ∧ u = c :: v ++ b := by
  obtain ⟨p, hp⟩ := h
  rcases List.append_eq_append_iff.1 hp with ⟨v, rfl, rfl⟩ | ⟨v, rfl, rfl⟩
  · cases v with
    | nil => exact .inl (List.suffix_refl _)
    | cons c v => exact .inr ⟨c, v, List.suffix_append _ _, rfl⟩
  · exact .inl (List.suffix_append _ _)

theorem IsUnbranded.append {a s : List Char} (hs : IsUnbranded s) (hhyphen : '-' ∉ a)
    (hscore : '_' ∉ a) : IsUnbranded (a ++ s) := by
  intro u hu
  rcases suffix_append_cases hu with hu | ⟨c, v, hv, rfl⟩
  · exact hs u hu
  · rintro ⟨d, b, t, heq, hd, -⟩
    obtain ⟨rfl, -⟩ := List.cons.inj heq
    have hc := hv.subset (List.mem_cons_self ..)
    rcases hd with rfl | rfl
    · exact hhyphen hc
    · exact hscore hc

theorem IsUnbranded.cons {c : Char} {s : List Char} (h : ¬ OpensWithBrand (c :: s))
    (hs : IsUnbranded s) : IsUnbranded (c :: s) := by
  intro u hu
  rcases List.suffix_cons_iff.1 hu with rfl | hu
  · exact h
  · exact hs u hu

theorem not_opensWithBrand_of_head {c : Char} {s : List Char}
    (h : ∀ d ∈ s.head?, d.toLower ≠ 'o' ∧ d.toLower ≠ 'd') : ¬ OpensWithBrand (c :: s) := by
  rintro ⟨d, b, t, heq, -, hb, -⟩
  obtain ⟨-, rfl⟩ := List.cons.inj heq
  cases b with
  | nil => exact ne_nil_of_mem_brands hb rfl
  | cons e b =>
    have hall : ∀ brand ∈ brands, brand.head? = some 'o' ∨ brand.head? = some 'd' := by decide
    have hne := h e rfl
    rcases hall _ hb with he | he
    · exact hne.1 (Option.some.inj he)
    · exact hne.2 (Option.some.inj he)

theorem prefix_of_head {p : Char → Bool} {b t a s : List Char} (hb : ∀ c ∈ b, p c = true)
    (hs : ∀ c ∈ s.head?, p c = false) (h : b ++ t = a ++ s) : ∃ u, a = b ++ u ∧ t = u ++ s := by
  rcases List.append_eq_append_iff.1 h with ⟨u, rfl, rfl⟩ | ⟨u, rfl, rfl⟩
  · exact ⟨u, rfl, rfl⟩
  · cases u with
    | nil => exact ⟨[], by simp, rfl⟩
    | cons c u =>
      have hc := hs c rfl
      rw [hb c (by simp)] at hc
      cases hc

theorem append_inj_of_head {p : Char → Bool} {a b s t : List Char} (ha : ∀ c ∈ a, p c = true)
    (hb : ∀ c ∈ b, p c = true) (hs : ∀ c ∈ s.head?, p c = false)
    (ht : ∀ c ∈ t.head?, p c = false) (h : a ++ s = b ++ t) : a = b ∧ s = t := by
  obtain ⟨u, rfl, rfl⟩ := prefix_of_head hb hs h.symm
  cases u with
  | nil => exact ⟨List.append_nil b, rfl⟩
  | cons c u =>
    have hc := ht c rfl
    rw [ha c (by simp)] at hc
    cases hc

theorem OpensWithBrand.of_append {u y : List Char} (hne : u ≠ [])
    (hy : ∀ c ∈ y.head?, isBlank c = true) (h : OpensWithBrand (u ++ y)) : OpensWithBrand u := by
  obtain ⟨c, b, t, heq, hc, hb, ht⟩ := h
  obtain ⟨d, v, rfl⟩ := List.exists_cons_of_ne_nil hne
  obtain ⟨rfl, hrest⟩ := List.cons.inj heq
  obtain ⟨w, rfl, rfl⟩ := prefix_of_head (p := fun e => !isBlank e)
    (fun e he => by rw [isBlank_of_mem_brand hb he]; rfl) (fun e he => by rw [hy e he]; rfl)
    hrest.symm
  refine ⟨d, b, w, rfl, hc, hb, fun e he => ht e ?_⟩
  rw [List.head?_append, he]
  rfl

/-- Text that may stand beside a name: without digits, escapes and brands. -/
structure IsAside (s : List Char) : Prop where
  isDigit : ∀ c ∈ s, Text.isDigit c = false
  unescaped : '%' ∉ s
  unbranded : ∀ brand ∈ brands, ¬ brand <:+: s.map Char.toLower

theorem isAside_nil : IsAside [] where
  isDigit := by simp
  unescaped := by simp
  unbranded := by decide

theorem IsAside.of_infix {s u : List Char} (hs : IsAside s) (h : u <:+: s) : IsAside u where
  isDigit c hc := hs.isDigit c (h.subset hc)
  unescaped hmem := hs.unescaped (h.subset hmem)
  unbranded brand hbrand hu := hs.unbranded brand hbrand (hu.trans (h.map Char.toLower))

theorem IsAside.not_opensWithBrand {s : List Char} (hs : IsAside s) : ¬ OpensWithBrand s := by
  rintro ⟨c, b, t, rfl, -, hb, -⟩
  apply hs.unbranded _ hb
  exact ⟨[c.toLower], t.map Char.toLower, by simp⟩

theorem IsAside.isUnbranded_append {x s : List Char} (hx : IsAside x)
    (hlast : ∀ c ∈ x.getLast?, isBlank c = true) (hs : IsUnbranded s) : IsUnbranded (x ++ s) := by
  intro u hu
  rcases suffix_append_cases hu with hu | ⟨c, v, hv, rfl⟩
  · exact hs u hu
  · have hvlast : ∀ d ∈ (c :: v).getLast?, isBlank d = true := by
      intro d hd
      obtain ⟨p, rfl⟩ := hv
      apply hlast d
      rw [List.getLast?_append, hd]
      rfl
    have haside := hx.of_infix hv.isInfix
    obtain ⟨w, d, hw⟩ := (List.eq_nil_or_concat' (c :: v)).resolve_left (by simp)
    have hd : isBlank d = true := hvlast d (by rw [hw]; simp)
    intro hbrand
    rw [hw, List.append_assoc] at hbrand
    have hwne : w ≠ [] := by
      rintro rfl
      obtain ⟨e, b, t, heq, he, -⟩ := hbrand
      obtain ⟨rfl, -⟩ := List.cons.inj heq
      rcases he with rfl | rfl <;> revert hd <;> decide
    have hopens := hbrand.of_append hwne (by simpa using hd)
    apply (haside.of_infix (u := w) ?_).not_opensWithBrand hopens
    rw [hw]
    exact (List.prefix_append w [d]).isInfix

theorem IsUnbranded.append_aside {s y : List Char} (hs : IsUnbranded s) (hy : IsAside y)
    (hhead : ∀ c ∈ y.head?, isBlank c = true) : IsUnbranded (s ++ y) := by
  intro u hu
  rcases suffix_append_cases hu with hu | ⟨c, v, hv, rfl⟩
  · exact (hy.of_infix hu.isInfix).not_opensWithBrand
  · intro hbrand
    exact hs _ hv (hbrand.of_append (by simp) hhead)

/-- A name without a brand is left alone by normalising, with what stands around it. -/
theorem normalizeName_surrounded {x s y : List Char} (hne : s ≠ [])
    (hblank : ∀ c ∈ s, isBlank c = false) (hescape : '%' ∉ s) (hs : IsUnbranded s)
    (hx : IsAside x) (hlast : ∀ c ∈ x.getLast?, isBlank c = true)
    (hy : IsAside y) (hhead : ∀ c ∈ y.head?, isBlank c = true) :
    normalizeName (String.ofList (x ++ (s ++ y))) = trimStart x ++ (s ++ trimEnd y) := by
  have hstart : ∀ c ∈ s.head?, isBlank c = false := fun c hc => hblank c (List.mem_of_head? hc)
  have hend : ∀ c ∈ s.getLast?, isBlank c = false :=
    fun c hc => hblank c (List.mem_of_getLast? hc)
  have htrim (x y : List Char) : trim (x ++ (s ++ y)) = trimStart x ++ (s ++ trimEnd y) :=
    Text.trim_append hne hstart hend
  have hx' := hx.of_infix (Text.trimStart_suffix x).isInfix
  have hy' := hy.of_infix (Text.trimEnd_prefix y).isInfix
  have hescapes : '%' ∉ trimStart x ++ (s ++ trimEnd y) := by
    simp only [List.mem_append, not_or]
    exact ⟨hx'.unescaped, hescape, hy'.unescaped⟩
  have hunbranded : IsUnbranded (trimStart x ++ (s ++ trimEnd y)) :=
    hx'.isUnbranded_append (Text.isBlank_getLast?_trimStart hlast)
      (hs.append_aside hy' (Text.isBlank_head?_trimEnd hhead))
  rw [normalizeName, String.toList_ofList, htrim, Text.percentDecode_of_not_mem hescapes,
    hunbranded.withoutBranding_eq, htrim, Text.trimStart_trimStart, Text.trimEnd_trimEnd]

end ReleaseCatalog

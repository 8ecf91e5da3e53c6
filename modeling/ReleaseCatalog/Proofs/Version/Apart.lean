import ReleaseCatalog.Proofs.Version.Unbranded
import ReleaseCatalog.Proofs.Version.Scan

namespace ReleaseCatalog

open Text (isDigit)

namespace Family

/-- What every name of the family bears, and every text with such a name in it. -/
def Anchored : Family → List Char → Prop
  | nightly, s => 5 ≤ s.count '-'
  | legacy, s => '_' ∈ s
  | update, s => ∃ c d, isDigit c = true ∧ isDigit d = true ∧ [c, 'u', d] <:+: s
  | jep223, _ => True

theorem Anchored.of_infix {f : Family} {s t : List Char} (h : f.Anchored s) (hst : s <:+: t) :
    f.Anchored t := by
  cases f with
  | nightly => exact Nat.le_trans h (hst.sublist.count_le '-')
  | legacy => exact hst.subset h
  | update =>
    obtain ⟨c, d, hc, hd, hinfix⟩ := h
    exact ⟨c, d, hc, hd, hinfix.trans hst⟩
  | jep223 => trivial

theorem length_le_count (fields : List (List Char)) :
    fields.length ≤ (fields.flatMap fun w => '-' :: w).count '-' := by
  induction fields with
  | nil => exact Nat.le_refl _
  | cons w fields ih =>
    rw [List.flatMap_cons, List.count_append, List.count_cons_self, List.length_cons]
    omega

theorem Writes.anchored {f : Family} {sp : Spelling} {w : List Char} (h : f.Writes sp w) :
    f.Anchored w := by
  cases h with
  | nightly opening hmajor marked date =>
    have hfields := length_le_count date.fields
    rw [date.length_fields] at hfields
    show 5 ≤ List.count '-' _
    simp only [Stamp.text, List.count_append, List.count_cons_self]
    omega
  | legacy hline hsecurity hbuild =>
    show '_' ∈ _
    simp
  | @update major security build jdk hmajor hsecurity hbuild =>
    obtain ⟨a, c, rfl⟩ := (List.eq_nil_or_concat' major).resolve_left hmajor.1.1
    obtain ⟨d, v, rfl⟩ := List.exists_cons_of_ne_nil hsecurity.1
    refine ⟨c, d, hmajor.1.2 c (by simp), hsecurity.2 d (by simp), ?_⟩
    exact ⟨(if jdk then "jdk".toList else []) ++ a, v ++ build.text "-b".toList, by simp⟩
  | jep223 => trivial

theorem name_eq_nil_of_not_anchored {f : Family} {s u : List Char} (h : ¬ f.Anchored s)
    (hu : u <:+ s) : f.name u = [] := by
  apply List.eq_nil_iff_forall_not_mem.2
  rintro ⟨sp, t⟩ hmem
  obtain ⟨w, rfl, hw⟩ := writes_of_mem hmem
  exact h (hw.anchored.of_infix ((List.prefix_append w t).isInfix.trans hu.isInfix))

end Family

/-- A family finds nothing in a text that does not bear its mark. -/
theorem Version.found_eq_nil {f : Family} {s : List Char} (h : ¬ f.Anchored s) (extent : Extent) :
    Version.found extent f s = [] := by
  cases extent with
  | whole =>
    have hnil := Family.name_eq_nil_of_not_anchored h (List.suffix_refl s)
    rw [found, Text.Reading.whole?, hnil]
    rfl
  | anywhere =>
    rw [found, Family.names_eq_nil fun u hu => Family.name_eq_nil_of_not_anchored h hu]
    rfl

theorem count_of_isNumeric {c : Char} (hc : isNumeric c = false) {w : List Char}
    (hw : ∀ d ∈ w, isNumeric d = true) : w.count c = 0 := by
  rw [List.count_eq_zero]
  intro hmem
  rw [hw c hmem] at hc
  cases hc

theorem Build.count_hyphen_le {mark : List Char} {n : Nat} (hmark : mark.count '-' ≤ n)
    (b : Option Build) : (b.elim [] (Build.text mark)).count '-' ≤ n := by
  cases b with
  | none => exact Nat.zero_le _
  | some b =>
    have hnumber : b.number.digits.count '-' = 0 :=
      count_of_isNumeric (by decide) fun _ h => b.number.isNumeric h
    have hadditional : (dotted b.additional).count '-' = 0 :=
      count_of_isNumeric (by decide) fun _ h => isNumeric_of_mem_dotted h
    show (mark ++ (b.number.digits ++ dotted b.additional)).count '-' ≤ n
    rw [List.count_append, List.count_append]
    omega

theorem not_infix_of_digit {a t b : List Char} {x c : Char} (hc : isDigit c = true) (ha : x ∉ a)
    (hb : x ∉ b) (ht : ∀ d ∈ t, isDigit d = false) (hhead : ∀ d ∈ t.head?, d ≠ x) :
    ¬ [c, x] <:+: a ++ (t ++ b) := by
  rintro ⟨p, q, h⟩
  have hstart {s : List Char} (hs : x :: s = t ++ b) : False := by
    cases t with
    | nil =>
      rw [List.nil_append] at hs
      exact hb (hs ▸ List.mem_cons_self ..)
    | cons d t => exact hhead d rfl (List.cons.inj hs).1.symm
  have h : (p ++ [c]) ++ x :: q = a ++ (t ++ b) := by
    rw [← h]
    simp
  rcases List.append_eq_append_iff.1 h with ⟨z, rfl, hz⟩ | ⟨z, hz, hrest⟩
  · cases z with
    | nil => exact hstart hz
    | cons e z =>
      obtain ⟨rfl, -⟩ := List.cons.inj hz
      exact ha (by simp)
  · rcases List.eq_nil_or_concat' z with rfl | ⟨y, e, rfl⟩
    · exact hstart hrest.symm
    · have he : c = e := by
        rw [← List.append_assoc] at hz
        exact (List.append_inj' hz rfl).2 |> List.singleton_inj.1
      subst he
      rcases List.append_eq_append_iff.1 hrest with ⟨v, hv, hv'⟩ | ⟨v, rfl, hv⟩
      · exact hb (hv' ▸ by simp)
      · rw [ht c (by simp)] at hc
        cases hc

namespace ReleaseName

theorem not_anchored_nightly {r : ReleaseName} (hfamily : r.family ≠ .nightly)
    (hsuffix : r.HasNoSuffix) : ¬ Family.nightly.Anchored r.text := by
  have hnumber (m : Decimal) : m.digits.count '-' = 0 :=
    count_of_isNumeric (by decide) fun _ h => m.isNumeric h
  apply Nat.not_le_of_lt
  cases r with
  | nightly => exact absurd rfl hfamily
  | legacy line oneDigit security build =>
    have hmark : "-b".toList.count '-' ≤ 1 := by decide
    have hbuild := Build.count_hyphen_le hmark build
    have hone : "1.".toList.count '-' = 0 := by decide
    have hzero : ".0_".toList.count '-' = 0 := by decide
    simp only [text, List.count_append, hnumber, hone, hzero]
    omega
  | update jdk major security build =>
    have hmark : "-b".toList.count '-' ≤ 1 := by decide
    have hbuild := Build.count_hyphen_le hmark build
    have hjdk : (if jdk then "jdk".toList else []).count '-' = 0 := by cases jdk <;> decide
    have hu : 'u' ≠ '-' := by decide
    simp only [text, List.count_append, List.count_cons_of_ne hu, hnumber, hjdk]
    omega
  | jep223 opening major numbers tag build suffix =>
    obtain rfl : suffix = none := hsuffix
    have hopening : opening.text.count '-' ≤ 1 := by cases opening <;> decide
    have hnumbers : numbers.text.count '-' = 0 :=
      count_of_isNumeric (by decide) fun _ h => numbers.isNumeric h
    have hmark : ['+'].count '-' ≤ 0 := by decide
    have hbuild := Build.count_hyphen_le hmark build
    have htag : (tag.elim [] fun p => '-' :: p.text).count '-' ≤ 1 := by
      cases tag with
      | none => exact Nat.zero_le _
      | some p =>
        have hp : p.text.count '-' = 0 := by
          rw [List.count_eq_zero]
          intro hmem
          have halnum := p.isAlphanum hmem
          revert halnum
          decide
        simp [hp]
    simp only [text, ending, List.count_append, hnumber, hnumbers, Option.elim_none, List.count_nil]
    omega

theorem not_anchored_legacy {r : ReleaseName} (h : r.family = .update ∨ r.family = .jep223) :
    ¬ Family.legacy.Anchored r.text := by
  have hnumeric {w : List Char} (hw : ∀ c ∈ w, isNumeric c = true) : '_' ∉ w := by
    rw [← List.count_eq_zero]
    exact count_of_isNumeric (by decide) hw
  have hdigits (m : Decimal) : '_' ∉ m.digits := hnumeric fun _ h => m.isNumeric h
  have hbuild {mark : List Char} (hmark : '_' ∉ mark) (b : Option Build) :
      '_' ∉ b.elim [] (Build.text mark) := by
    intro hmem
    rcases Build.mem_text hmem with hmem | hmem
    · exact hmark hmem
    · revert hmem
      decide
  cases r with
  | nightly => rcases h with h | h <;> cases h
  | legacy => rcases h with h | h <;> cases h
  | update jdk major security build =>
    have hjdk : '_' ∉ (if jdk then "jdk".toList else []) := by cases jdk <;> decide
    have hbuild := hbuild (by decide : '_' ∉ "-b".toList) build
    show '_' ∉ text _
    simp only [text, List.mem_append, List.mem_cons, not_or]
    exact ⟨hjdk, hdigits _, by decide, hdigits _, hbuild⟩
  | jep223 opening major numbers tag build suffix =>
    have hopening : '_' ∉ opening.text := by cases opening <;> decide
    have hbuild := hbuild (by decide : '_' ∉ ['+']) build
    have htag : '_' ∉ tag.elim [] fun p => '-' :: p.text := by
      cases tag with
      | none => simp
      | some p =>
        intro hmem
        have halnum := p.isAlphanum ((List.mem_cons.1 hmem).resolve_left (by decide))
        revert halnum
        decide
    have hsuffix : '_' ∉ suffix.elim [] fun x => '-' :: x.text := by
      cases suffix with
      | none => simp
      | some x =>
        intro hmem
        have hchar := x.isSuffixChar _ ((List.mem_cons.1 hmem).resolve_left (by decide))
        revert hchar
        decide
    show '_' ∉ text _
    simp only [text, ending, List.mem_append, not_or]
    exact ⟨hopening, hdigits _, hnumeric fun _ h => numbers.isNumeric h, htag, hbuild, hsuffix⟩

/-- Whether the name is a version string whose tag, if it has one, has no digit. -/
def HasDigitlessTag : ReleaseName → Prop
  | jep223 _ _ _ tag _ _ => ∀ p ∈ tag, ∀ c ∈ p.text, isDigit c = false
  | _ => False

theorem not_anchored_update {r : ReleaseName} (htag : r.HasDigitlessTag)
    (hsuffix : r.HasNoSuffix) : ¬ Family.update.Anchored r.text := by
  rintro ⟨c, d, hc, -, hinfix⟩
  cases r with
  | nightly => exact htag
  | legacy => exact htag
  | update => exact htag
  | jep223 opening major numbers tag build suffix =>
    obtain rfl : suffix = none := hsuffix
    have hnumeric {w : List Char} (hw : ∀ c ∈ w, isNumeric c = true) : 'u' ∉ w := by
      rw [← List.count_eq_zero]
      exact count_of_isNumeric (by decide) hw
    have hfront : 'u' ∉ opening.text ++ (major.digits ++ numbers.text) := by
      have hopening : 'u' ∉ opening.text := by cases opening <;> decide
      simp only [List.mem_append, not_or]
      exact ⟨hopening, hnumeric fun _ h => major.isNumeric h,
        hnumeric fun _ h => numbers.isNumeric h⟩
    have hbuild : 'u' ∉ build.elim [] (Build.text ['+']) := by
      intro hmem
      rcases Build.mem_text hmem with hmem | hmem <;> revert hmem <;> decide
    have hdigits : ∀ d ∈ tag.elim [] (fun p => '-' :: p.text), isDigit d = false := by
      cases tag with
      | none => simp
      | some p =>
        intro d hd
        rcases List.mem_cons.1 hd with rfl | hd
        · decide
        · exact htag p rfl d hd
    have hhead : ∀ d ∈ (tag.elim [] fun p => '-' :: p.text).head?, d ≠ 'u' := by
      intro d hd
      cases tag <;> cases hd
      decide
    have htext : (jep223 opening major numbers tag build none).text =
        (opening.text ++ (major.digits ++ numbers.text)) ++
          ((tag.elim [] fun p => '-' :: p.text) ++ build.elim [] (Build.text ['+'])) := by
      simp [text, ending]
    have hpair : [c, 'u'] <:+: [c, 'u', d] := (List.prefix_append [c, 'u'] [d]).isInfix
    rw [htext] at hinfix
    exact not_infix_of_digit hc hfront hbuild hdigits hhead (hpair.trans hinfix)

end ReleaseName

/-- A number, and numbers that dots join to it. -/
def IsNumberPart (b : List Char) : Prop :=
  (∀ c ∈ b, isNumeric c = true) ∧ ∃ c ∈ b.head?, isDigit c = true

/-- Behind any product, the numbers of a text and what stands behind them are what they are. -/
theorem numberPart_inj {o o' : Opening} {a b s t : List Char} (ha : IsNumberPart a)
    (hb : IsNumberPart b) (hs : ∀ c ∈ s.head?, isNumeric c = false)
    (ht : ∀ c ∈ t.head?, isNumeric c = false) (h : o.text ++ (a ++ s) = o'.text ++ (b ++ t)) :
    a = b ∧ s = t := by
  have hdrop (o : Opening) {a : List Char} (ha : IsNumberPart a) (s : List Char) :
      (o.text ++ (a ++ s)).dropWhile (fun c => !isDigit c) = a ++ s := by
    obtain ⟨-, c, hc, hdigit⟩ := ha
    obtain ⟨v, rfl⟩ := List.head?_eq_some_iff.1 hc
    have hopening : ∀ d ∈ o.text, (!isDigit d) = true := by
      cases o <;> exact List.all_eq_true.1 (by decide)
    rw [List.dropWhile_append_of_pos hopening, List.cons_append, List.dropWhile_cons_of_neg]
    simp [hdigit]
  have hparts := congrArg (List.dropWhile fun c => !isDigit c) h
  rw [hdrop o ha, hdrop o' hb] at hparts
  exact append_inj_of_head ha.1 hb.1 hs ht hparts

theorem IsNumberPart.append {b w : List Char} (hb : IsNumberPart b)
    (hw : ∀ c ∈ w, isNumeric c = true) : IsNumberPart (b ++ w) := by
  obtain ⟨hnumeric, c, hc, hdigit⟩ := hb
  refine ⟨?_, c, by rw [List.head?_append, Option.mem_def.1 hc]; rfl, hdigit⟩
  intro d hd
  exact (List.mem_append.1 hd).elim (hnumeric d) (hw d)

theorem Family.IsLeadingWord.isNumberPart {major : List Char} (hmajor : IsLeadingWord major) :
    IsNumberPart major := by
  obtain ⟨c, v, rfl⟩ := List.exists_cons_of_ne_nil hmajor.1.1
  refine ⟨?_, c, rfl, hmajor.1.2 c (List.mem_cons_self ..)⟩
  intro d hd
  rw [isNumeric, hmajor.1.2 d hd, Bool.true_or]

theorem ReleaseName.updateName_text_eq_nil (opening : Opening) (major : Leading)
    (numbers : Numbers) (tag : Option Tag) (build : Option Build) (suffix : Option Suffix) :
    Family.update.name (jep223 opening major numbers tag build suffix).text = [] := by
  have hending : ∀ c ∈ (ending tag build suffix).head?, isNumeric c = false ∧ c ≠ 'u' := by
    intro c hc
    cases tag <;> cases build <;> cases suffix <;> cases hc <;> decide
  have hpart : IsNumberPart (major.digits ++ numbers.text) :=
    major.isLeadingWord.isNumberPart.append fun _ h => numbers.isNumeric h
  apply List.eq_nil_iff_forall_not_mem.2
  rintro ⟨sp, t⟩ hmem
  obtain ⟨w, hw, hwrites⟩ := Family.writes_of_mem hmem
  cases hwrites with
  | @update word security build' jdk hmajor hsecurity hbuild =>
    obtain ⟨o, ho⟩ : ∃ o : Opening, (if jdk then "jdk".toList else []) = o.text := by
      cases jdk with
      | true => exact ⟨.jdk, rfl⟩
      | false => exact ⟨.bare, rfl⟩
    have htext : opening.text ++ (major.digits ++ numbers.text ++ ending tag build suffix) =
        o.text ++ (word ++ 'u' :: (security ++ (build'.text "-b".toList ++ t))) := by
      rw [ho] at hw
      simpa [text] using hw
    have hu := (numberPart_inj hpart hmajor.isNumberPart (fun c hc => (hending c hc).1)
      (by simp; decide) htext).2
    exact (hending 'u' (by rw [hu]; rfl)).2 rfl

end ReleaseCatalog

import ReleaseCatalog.Proofs.Version.Normal
import ReleaseCatalog.Proofs.Version.Preference

namespace ReleaseCatalog

open Text (isBlank isDigit)

/-- A character of numbers that dots join. -/
def isNumeric (c : Char) : Bool := isDigit c || c == '.'

theorem Decimal.isNumeric (m : Decimal) {c : Char} (h : c ∈ m.digits) :
    ReleaseCatalog.isNumeric c = true := by
  rw [ReleaseCatalog.isNumeric, m.isDigit h, Bool.true_or]

theorem isNumeric_of_mem_dotted {m : Option Decimal} {c : Char} (h : c ∈ dotted m) :
    isNumeric c = true := by
  cases m with
  | none => cases h
  | some m =>
    rcases List.mem_cons.1 h with rfl | h
    · rfl
    · exact m.isNumeric h

theorem Numbers.isNumeric (ns : Numbers) {c : Char} (h : c ∈ ns.text) :
    ReleaseCatalog.isNumeric c = true := by
  simp only [Numbers.text, List.mem_append] at h
  rcases h with h | h | h <;> exact isNumeric_of_mem_dotted h

theorem Build.mem_text {mark : List Char} {b : Option Build} {c : Char}
    (h : c ∈ b.elim [] (Build.text mark)) : c ∈ mark ∨ ReleaseCatalog.isNumeric c = true := by
  cases b with
  | none => cases h
  | some b =>
    have h : c ∈ mark ++ (b.number.digits ++ dotted b.additional) := h
    simp only [List.mem_append] at h
    rcases h with h | h | h
    · exact .inl h
    · exact .inr (b.number.isNumeric h)
    · exact .inr (isNumeric_of_mem_dotted h)

theorem Stamp.mem_text (d : Stamp) {c : Char} (h : c ∈ d.text) : isDigit c = true ∨ c = '-' := by
  simp only [Stamp.text, List.mem_append, List.mem_flatMap, List.mem_cons] at h
  rcases h with h | ⟨w, hw, rfl | h⟩
  · exact .inl (d.isDigit_year c h)
  · exact .inr rfl
  · exact .inl (d.isDigit_field w hw c h)

theorem toLower_of_isDigit {c : Char} (h : isDigit c = true) : c.toLower = c := by
  apply dif_neg
  rintro ⟨hA, hZ⟩
  rw [ge_iff_le, UInt32.le_iff_toNat_le] at hA
  rw [UInt32.le_iff_toNat_le] at hZ
  have hcode : 65 ≤ c.toNat ∧ c.toNat ≤ 90 := ⟨hA, hZ⟩
  have hdigit : c.toNat ≤ 57 := by
    rw [Text.isDigit_eq_isAsciiDigit (by omega)] at h
    have h : 48 ≤ c.toNat ∧ c.toNat ≤ 57 := by
      simpa [Text.isAsciiDigit, Char.le_def, UInt32.le_iff_toNat_le] using h
    exact h.2
  omega

theorem not_opensWithBrand_of_isDigit {c : Char} {s : List Char}
    (h : ∀ d ∈ s.head?, isDigit d = true) : ¬ OpensWithBrand (c :: s) := by
  apply not_opensWithBrand_of_head
  intro d hd
  rw [toLower_of_isDigit (h d hd)]
  exact ⟨Family.ne_of_isDigit (h d hd) (by decide), Family.ne_of_isDigit (h d hd) (by decide)⟩

theorem IsUnbranded.numeric {w s : List Char} (hw : ∀ c ∈ w, isNumeric c = true)
    (hs : IsUnbranded s) : IsUnbranded (w ++ s) := by
  apply hs.append
  · intro hmem
    have hnumeric := hw _ hmem
    revert hnumeric
    decide
  · intro hmem
    have hnumeric := hw _ hmem
    revert hnumeric
    decide

theorem IsUnbranded.number (m : Decimal) {s : List Char} (hs : IsUnbranded s) :
    IsUnbranded (m.digits ++ s) :=
  hs.numeric fun _ h => m.isNumeric h

theorem Opening.isUnbranded (o : Opening) {s : List Char} (hs : IsUnbranded s)
    (hhead : ∀ c ∈ s.head?, isDigit c = true) : IsUnbranded (o.text ++ s) := by
  cases o with
  | bare => exact hs
  | jdk => exact hs.append (by decide) (by decide)
  | hyphenated =>
    have hhyphen : IsUnbranded ('-' :: s) := hs.cons (not_opensWithBrand_of_isDigit hhead)
    exact hhyphen.append (a := ['j', 'd', 'k']) (by decide) (by decide)

theorem Stamp.isUnbranded (d : Stamp) : IsUnbranded ('-' :: d.text) := by
  have hword {w s : List Char} (hlen : 0 < w.length) (hw : ∀ c ∈ w, isDigit c = true)
      (hs : IsUnbranded s) : IsUnbranded ('-' :: (w ++ s)) := by
    have hne : w ≠ [] := List.ne_nil_of_length_pos hlen
    apply IsUnbranded.cons
    · apply not_opensWithBrand_of_isDigit
      intro c hc
      rw [List.head?_append_of_ne_nil _ hne] at hc
      exact hw c (List.mem_of_head? hc)
    · apply hs.numeric
      intro c hc
      rw [isNumeric, hw c hc, Bool.true_or]
  have hfields (fields : List (List Char)) (hlen : ∀ w ∈ fields, w.length = 2)
      (hdigits : ∀ w ∈ fields, ∀ c ∈ w, isDigit c = true) :
      IsUnbranded (fields.flatMap fun w => '-' :: w) := by
    induction fields with
    | nil => exact isUnbranded_nil
    | cons w fields ih =>
      have hw := hlen w (List.mem_cons_self ..)
      exact hword (by omega) (hdigits w (List.mem_cons_self ..))
        (ih (fun v hv => hlen v (List.mem_cons_of_mem _ hv))
          fun v hv => hdigits v (List.mem_cons_of_mem _ hv))
  have hyear := d.length_year
  exact hword (by omega) d.isDigit_year (hfields d.fields d.length_field d.isDigit_field)

theorem Build.isUnbranded {mark : List Char} (hmark : mark = ['+'] ∨ mark = ['-', 'b'])
    (b : Option Build) : IsUnbranded (b.elim [] (Build.text mark)) := by
  cases b with
  | none => exact isUnbranded_nil
  | some b =>
    have hdotted : IsUnbranded (dotted b.additional) := by
      have h := isUnbranded_nil.numeric fun c hc => isNumeric_of_mem_dotted (m := b.additional) hc
      rwa [List.append_nil] at h
    have hnumbers := hdotted.number b.number
    show IsUnbranded (mark ++ (b.number.digits ++ dotted b.additional))
    rcases hmark with rfl | rfl
    · exact hnumbers.append (by decide) (by decide)
    · have hb : IsUnbranded ('b' :: (b.number.digits ++ dotted b.additional)) :=
        hnumbers.append (a := ['b']) (by decide) (by decide)
      exact hb.cons (not_opensWithBrand_of_head (by simp))

/-- A tag opens as a brand does only where it is one. -/
theorem Tag.not_opensWithBrand {p : Tag} (hp : p.text.map Char.toLower ∉ brands) {s : List Char}
    (hs : ∀ c ∈ s.head?, c = '+') : ¬ OpensWithBrand ('-' :: (p.text ++ s)) := by
  rintro ⟨c, b, t, heq, -, hb, ht⟩
  have hplus : ∀ c ∈ b, (c != '+') = true := by
    have hall : ∀ brand ∈ brands, '+' ∉ brand := by decide
    intro c hc
    rw [bne_iff_ne]
    rintro rfl
    exact hall _ hb (List.mem_map_of_mem hc)
  obtain ⟨u, hu, rfl⟩ := prefix_of_head hplus (fun c hc => by rw [hs c hc]; rfl)
    (List.cons.inj heq).2.symm
  cases u with
  | nil =>
    rw [List.append_nil] at hu
    exact hp (hu ▸ hb)
  | cons d u =>
    have hd := p.isAlphanum (c := d) (by rw [hu]; simp)
    rcases ht d rfl with rfl | rfl <;> revert hd <;> decide

namespace ReleaseName

/-- A character of names. -/
def isNameChar (c : Char) : Bool := isDigit c || isSuffixChar c || c == '_' || c == '+'

theorem isNameChar_of_isBlank {c : Char} (h : isBlank c = true) : isNameChar c = false :=
  Text.forall_isBlank (P := fun c => isNameChar c = false) (by decide +kernel) h

theorem isNameChar_of_isNumeric {c : Char} (h : isNumeric c = true) : isNameChar c = true := by
  rcases Bool.or_eq_true_iff.1 h with h | h
  · simp [isNameChar, h]
  · simp [isNameChar, isSuffixChar, beq_iff_eq.1 h]

theorem isNameChar_of_isSuffixChar {c : Char} (h : isSuffixChar c = true) :
    isNameChar c = true := by
  simp [isNameChar, h]

theorem isNameChar_text (r : ReleaseName) {c : Char} (h : c ∈ r.text) : isNameChar c = true := by
  have hword {w : List Char} (hw : w.all isNameChar = true) (h : c ∈ w) : isNameChar c = true :=
    List.all_eq_true.1 hw c h
  have hopening (o : Opening) (h : c ∈ o.text) : isNameChar c = true :=
    hword (by cases o <;> decide) h
  have hnumber (m : Decimal) (h : c ∈ m.digits) : isNameChar c = true :=
    isNameChar_of_isNumeric (m.isNumeric h)
  have hbuild {mark : List Char} {b : Option Build} (hmark : mark.all isNameChar = true)
      (h : c ∈ b.elim [] (Build.text mark)) : isNameChar c = true :=
    (Build.mem_text h).elim (hword hmark) isNameChar_of_isNumeric
  cases r with
  | nightly opening major marked date =>
    have hdate (h : c ∈ date.text) : isNameChar c = true := by
      rcases date.mem_text h with h | rfl
      · simp [isNameChar, h]
      · rfl
    simp only [text, List.mem_append, List.mem_cons] at h
    rcases h with h | h | h | rfl | h
    · exact hopening opening h
    · exact hnumber _ h
    · exact hword (by cases marked <;> decide) h
    · rfl
    · exact hdate h
  | legacy line oneDigit security build =>
    simp only [text, List.mem_append] at h
    rcases h with h | h | h | h | h
    · exact hword (by decide) h
    · exact hnumber _ h
    · exact hword (by decide) h
    · exact hnumber _ h
    · exact hbuild (by decide) h
  | update jdk major security build =>
    simp only [text, List.mem_append, List.mem_cons] at h
    rcases h with h | h | rfl | h | h
    · exact hword (by cases jdk <;> decide) h
    · exact hnumber _ h
    · rfl
    · exact hnumber _ h
    · exact hbuild (by decide) h
  | jep223 opening major numbers tag build suffix =>
    simp only [text, ending, List.mem_append] at h
    rcases h with h | h | h | h | h | h
    · exact hopening opening h
    · exact hnumber _ h
    · exact isNameChar_of_isNumeric (numbers.isNumeric h)
    · cases tag with
      | none => cases h
      | some p =>
        rcases List.mem_cons.1 h with rfl | h
        · rfl
        · exact isNameChar_of_isSuffixChar (by simp [isSuffixChar, p.isAlphanum h])
    · exact hbuild (by decide) h
    · cases suffix with
      | none => cases h
      | some x =>
        rcases List.mem_cons.1 h with rfl | h
        · rfl
        · exact isNameChar_of_isSuffixChar (x.isSuffixChar c h)

theorem isBlank_text (r : ReleaseName) {c : Char} (h : c ∈ r.text) : isBlank c = false := by
  apply eq_false_of_ne_true
  intro hblank
  have hname := r.isNameChar_text h
  rw [isNameChar_of_isBlank hblank] at hname
  cases hname

theorem unescaped_text (r : ReleaseName) : '%' ∉ r.text := by
  intro h
  have hname := r.isNameChar_text h
  revert hname
  decide

theorem text_ne_nil (r : ReleaseName) : r.text ≠ [] := by
  cases r with
  | nightly opening major marked date => simp [text]
  | legacy line oneDigit security build => simp [text]
  | update jdk major security build => simp [text]
  | jep223 opening major numbers tag build suffix =>
    have hne := major.ne_nil
    simp [text, hne]

/-- Whether the tag of the name, if it has one, is no brand. -/
def HasNoBrand : ReleaseName → Prop
  | jep223 _ _ _ tag _ _ => ∀ p ∈ tag, p.text.map Char.toLower ∉ brands
  | _ => True

/-- Whether nothing follows the tag and the build of a version string. -/
def HasNoSuffix : ReleaseName → Prop
  | jep223 _ _ _ _ _ suffix => suffix = none
  | _ => True

theorem isUnbranded_text {r : ReleaseName} (hbrand : r.HasNoBrand) (hsuffix : r.HasNoSuffix) :
    IsUnbranded r.text := by
  cases r with
  | nightly opening major marked date =>
    have hmark : IsUnbranded ((if marked then ['u'] else []) ++ '-' :: date.text) := by
      apply date.isUnbranded.append
      all_goals cases marked <;> decide
    exact opening.isUnbranded (hmark.number _) (major.isDigit_head? _)
  | legacy line oneDigit security build =>
    have hsecurity := (Build.isUnbranded (.inr rfl) build).number security
    have hscore : IsUnbranded (".0_".toList ++ (security.digits ++
        build.elim [] (Build.text "-b".toList))) :=
      (hsecurity.cons (not_opensWithBrand_of_isDigit (security.isDigit_head? _))).append
        (a := ['.', '0']) (by decide) (by decide)
    exact (hscore.number line.toDecimal).append (a := "1.".toList) (by decide) (by decide)
  | update jdk major security build =>
    have hsecurity := (Build.isUnbranded (.inr rfl) build).number security
    have hmajor := (hsecurity.append (a := ['u']) (by decide) (by decide)).number major.toDecimal
    apply hmajor.append
    all_goals cases jdk <;> decide
  | jep223 opening major numbers tag build suffix =>
    obtain rfl : suffix = none := hsuffix
    have hbuild := Build.isUnbranded (.inl rfl) build
    have hending : IsUnbranded (ending tag build none) := by
      rw [ending]
      simp only [Option.elim_none, List.append_nil]
      cases tag with
      | none => exact hbuild
      | some p =>
        have hhead : ∀ c ∈ (build.elim [] (Build.text ['+'])).head?, c = '+' := by
          intro c hc
          cases build <;> cases hc
          rfl
        apply IsUnbranded.cons
        · exact Tag.not_opensWithBrand (hbrand p rfl) hhead
        · have hmark {c : Char} (hc : c.isAlphanum = false) : c ∉ p.text := by
            intro hmem
            rw [p.isAlphanum hmem] at hc
            cases hc
          exact hbuild.append (hmark (by decide)) (hmark (by decide))
    exact opening.isUnbranded ((hending.numeric fun _ hc => numbers.isNumeric hc).number _)
      (major.isDigit_head? _)

end ReleaseName

end ReleaseCatalog

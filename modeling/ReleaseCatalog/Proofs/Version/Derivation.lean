import ReleaseCatalog.Proofs.Version.Modes
import ReleaseCatalog.Proofs.Version.NormalForm

namespace ReleaseCatalog

open Text (isDigit)

namespace Build

def words (b : Option Build) : Family.BuildWords :=
  b.map fun b => (b.number.digits, b.additional.map (·.digits))

theorem words_fst (b : Option Build) : (words b).map (·.1) = ReleaseName.buildWord b := by
  cases b <;> rfl

theorem words_snd (b : Option Build) : (words b).bind (·.2) = ReleaseName.additionalWord b := by
  cases b <;> rfl

theorem text_words (b : Option Build) (mark : List Char) :
    (words b).text mark = b.elim [] (Build.text mark) := by
  rcases b with _ | ⟨n, _ | a⟩ <;> rfl

end Build

theorem Decimal.isNumberWord_optional (m : Option Decimal) :
    ∀ w ∈ m.map (·.digits), Family.IsNumberWord w := by
  intro w hw
  obtain ⟨m, -, rfl⟩ := Option.map_eq_some_iff.1 hw
  exact m.isNumberWord

theorem Build.areNumbers_words (b : Option Build) : (words b).AreNumbers := by
  intro w hw
  obtain ⟨b, -, rfl⟩ := Option.map_eq_some_iff.1 hw
  exact ⟨b.number.isNumberWord, Decimal.isNumberWord_optional b.additional⟩

theorem ReleaseName.writes_spelling (r : ReleaseName) : r.family.Writes r.spelling r.text := by
  cases r with
  | nightly opening major marked date => exact .nightly opening major.isLeadingWord marked date
  | legacy line oneDigit security build =>
    obtain ⟨c, hc⟩ := List.length_eq_one_iff.1 oneDigit
    have hleads : ('1' ≤ c && c ≤ '9') = true := line.leads c (by rw [hc]; rfl)
    have hwrites := Family.Writes.legacy hleads security.isNumberWord (Build.areNumbers_words build)
    rw [Build.words_fst, Build.words_snd, Build.text_words] at hwrites
    rw [spelling, text, hc]
    exact hwrites
  | update jdk major security build =>
    have hwrites := Family.Writes.update jdk major.isLeadingWord security.isNumberWord
      (Build.areNumbers_words build)
    rw [Build.words_fst, Build.words_snd, Build.text_words] at hwrites
    exact hwrites
  | jep223 opening major numbers tag build suffix =>
    have htag : ∀ w ∈ tag.map (·.text), Family.IsTagWord w := by
      intro w hw
      obtain ⟨p, -, rfl⟩ := Option.map_eq_some_iff.1 hw
      exact ⟨p, rfl⟩
    have hsuffix : ∀ w ∈ suffix.map (·.text), ∃ x : Suffix, x.text = w := by
      intro w hw
      obtain ⟨x, -, rfl⟩ := Option.map_eq_some_iff.1 hw
      exact ⟨x, rfl⟩
    have hwrites := Family.Writes.jep223 opening major.isLeadingWord
      (Decimal.isNumberWord_optional numbers.minor) (Decimal.isNumberWord_optional numbers.security)
      (Decimal.isNumberWord_optional numbers.patch) htag (Build.areNumbers_words build) hsuffix
    simp only [Build.words_fst, Build.words_snd, Build.text_words, Family.afterDot_digits]
      at hwrites
    simp only [text, Numbers.text, ending, List.append_assoc]
    cases tag <;> cases suffix <;> exact hwrites

namespace Spelling

def numberPart (sp : Spelling) : List Char :=
  sp.major ++ (Family.afterDot sp.minor ++ (Family.afterDot sp.security ++
    Family.afterDot sp.patch))

/-- What stands behind the tag of a version string. -/
def buildPart (sp : Spelling) : List Char :=
  sp.build.elim [] (fun b => '+' :: (b ++ Family.afterDot sp.additional)) ++
    Family.afterHyphen sp.optional

/-- What stands behind the numbers of a version string. -/
def closing (sp : Spelling) : List Char := Family.afterHyphen sp.pre ++ sp.buildPart

theorem head?_buildPart {sp : Spelling} {c : Char} (h : c ∈ sp.buildPart.head?) :
    c = '+' ∨ c = '-' := by
  rcases sp with ⟨_, _, _, _, _, _ | b, _, _ | w⟩ <;> cases h
  · exact .inr rfl
  · exact .inl rfl
  · exact .inl rfl

theorem head?_closing {sp : Spelling} {c : Char} (h : c ∈ sp.closing.head?) :
    c = '+' ∨ c = '-' := by
  cases hpre : sp.pre with
  | none =>
    rw [closing, hpre] at h
    exact head?_buildPart h
  | some t =>
    rw [closing, hpre] at h
    cases h
    exact .inr rfl

theorem isNumeric_head?_closing (sp : Spelling) : ∀ c ∈ sp.closing.head?, isNumeric c = false := by
  intro c hc
  rcases head?_closing hc with rfl | rfl <;> decide

theorem isAlphanum_head?_buildPart (sp : Spelling) :
    ∀ c ∈ sp.buildPart.head?, c.isAlphanum = false := by
  intro c hc
  rcases head?_buildPart hc with rfl | rfl <;> decide

end Spelling

namespace Family

theorem isNumeric_of_mem_afterDot {w : Option (List Char)} (hw : ∀ v ∈ w, IsNumberWord v)
    {c : Char} (h : c ∈ afterDot w) : isNumeric c = true := by
  cases w with
  | none => cases h
  | some v =>
    rcases List.mem_cons.1 h with rfl | h
    · rfl
    · rw [isNumeric, (hw v rfl).2 c h, Bool.true_or]

/-- What the family of version strings writes, in terms of the words alone. -/
structure IsVersionString (sp : Spelling) (s : List Char) : Prop where
  exists_opening : ∃ o : Opening, s = o.text ++ (sp.numberPart ++ sp.closing)
  isNumberPart : IsNumberPart sp.numberPart
  isTagWord : ∀ t ∈ sp.pre, IsTagWord t
  build_of_additional : sp.additional.isSome → sp.build.isSome
  optional_ne_nil : ∀ w ∈ sp.optional, w ≠ []

theorem Writes.isVersionString {sp : Spelling} {s : List Char} (h : Writes .jep223 sp s) :
    IsVersionString sp s := by
  cases h with
  | @jep223 major minor security patch pre optional build opening hmajor hminor hsecurity hpatch
      hpre hbuild hoptional =>
    refine ⟨⟨opening, ?_⟩, hmajor.isNumberPart.append ?_, hpre, ?_, ?_⟩
    · have hbuildText : build.text ['+'] = (build.map (·.1)).elim [] fun b =>
          '+' :: (b ++ afterDot (build.bind (·.2))) := by
        cases build <;> rfl
      rw [Spelling.numberPart, Spelling.closing, Spelling.buildPart, hbuildText]
      simp only [List.append_assoc]
    · intro c hc
      simp only [List.mem_append] at hc
      rcases hc with hc | hc | hc
      · exact isNumeric_of_mem_afterDot hminor hc
      · exact isNumeric_of_mem_afterDot hsecurity hc
      · exact isNumeric_of_mem_afterDot hpatch hc
    · cases build with
      | none => exact id
      | some b => exact fun _ => rfl
    · intro w hw
      obtain ⟨x, rfl⟩ := hoptional w hw
      exact x.ne_nil

theorem Writes.parts_eq {sp other : Spelling} {s : List Char} (h : Writes .jep223 sp s)
    (hother : Writes .jep223 other s) :
    sp.numberPart = other.numberPart ∧ sp.closing = other.closing := by
  obtain ⟨o, ho⟩ := h.isVersionString.exists_opening
  obtain ⟨o', ho'⟩ := hother.isVersionString.exists_opening
  exact numberPart_inj h.isVersionString.isNumberPart hother.isVersionString.isNumberPart
    sp.isNumeric_head?_closing other.isNumeric_head?_closing (ho.symm.trans ho')

theorem Writes.tag_unique {sp other : Spelling} {s t u : List Char} (h : Writes .jep223 sp s)
    (hother : Writes .jep223 other s) (ht : t ∈ sp.pre) (hu : u ∈ other.pre) : t = u := by
  have hclosing := (h.parts_eq hother).2
  rw [Spelling.closing, Spelling.closing, Option.mem_def.1 ht, Option.mem_def.1 hu] at hclosing
  obtain ⟨p, rfl⟩ := h.isVersionString.isTagWord t ht
  obtain ⟨q, rfl⟩ := hother.isVersionString.isTagWord u hu
  exact (append_inj_of_head (fun _ h => p.isAlphanum h) (fun _ h => q.isAlphanum h)
    sp.isAlphanum_head?_buildPart other.isAlphanum_head?_buildPart (List.cons.inj hclosing).2).1

theorem numbers_eq_none {sp : Spelling} (h : '.' ∉ sp.numberPart) :
    sp.minor = none ∧ sp.security = none ∧ sp.patch = none := by
  have hdot {w : Option (List Char)} (hw : '.' ∉ afterDot w) : w = none := by
    cases w with
    | none => rfl
    | some v => exact absurd (List.mem_cons_self ..) hw
  simp only [Spelling.numberPart, List.mem_append, not_or] at h
  obtain ⟨-, hminor, hsecurity, hpatch⟩ := h
  exact ⟨hdot hminor, hdot hsecurity, hdot hpatch⟩

/-- A tag or a build would put another character in the place of a digit. -/
theorem IsVersionString.of_closing_eq {sp : Spelling} {s : List Char} (h : IsVersionString sp s)
    {c : Char} {w : List Char} (hc : isDigit c = true) {marked : Bool}
    (hclosing : (if marked then ['u'] else []) ++ '-' :: c :: w = sp.closing) :
    sp.pre = none ∧ sp.build = none ∧ sp.additional = none ∧ sp.optional = some (c :: w) := by
  obtain ⟨-, -, htag, hadditional, -⟩ := h
  have hunmarked : marked = false := by
    cases marked with
    | false => rfl
    | true =>
      have hmark : 'u' ∈ sp.closing.head? := by
        rw [← hclosing]
        rfl
      rcases Spelling.head?_closing hmark with h | h <;> revert h <;> decide
  subst hunmarked
  obtain ⟨major, minor, security, patch, _ | t, _ | b, additional, _ | v⟩ := sp
  case none.none.none => cases hclosing
  case none.none.some =>
    obtain rfl : additional = none := by simpa using hadditional
    exact ⟨rfl, rfl, rfl, congrArg some (List.cons.inj hclosing).2.symm⟩
  case none.some.none => cases hclosing
  case none.some.some => cases hclosing
  all_goals
    obtain ⟨p, rfl⟩ := htag t rfl
    have hfirst : c = p.first := (List.cons.inj (List.cons.inj hclosing).2).1
    rw [hfirst, Text.isDigit_of_isAlpha p.isAlpha_first] at hc
    cases hc

/-- A dated name that is a version string too has its date for the suffix. -/
theorem Writes.eq_of_nightly {sp other : Spelling} {s : List Char} (h : Writes .nightly sp s)
    (hother : Writes .jep223 other s) : other = sp := by
  have hstring := hother.isVersionString
  obtain ⟨o, ho⟩ := hstring.exists_opening
  cases h with
  | @nightly major opening hmajor marked date =>
    obtain ⟨c, w, hdate, hc⟩ : ∃ c w, date.text = c :: w ∧ isDigit c = true := by
      have hyear : date.year ≠ [] := List.ne_nil_of_length_pos (by rw [date.length_year]; decide)
      obtain ⟨c, w, hw⟩ := List.exists_cons_of_ne_nil hyear
      exact ⟨c, _, by rw [Stamp.text, hw]; rfl, date.isDigit_year c (by simp [hw])⟩
    have hmark : ∀ d ∈ ((if marked then ['u'] else []) ++ '-' :: date.text).head?,
        isNumeric d = false := by
      intro d hd
      cases marked <;> cases hd <;> decide
    obtain ⟨hnumbers, hclosing⟩ := numberPart_inj hmajor.isNumberPart hstring.isNumberPart hmark
      other.isNumeric_head?_closing ho
    rw [hdate] at hclosing ⊢
    obtain ⟨hpre, hbuild, hadditional, hoptional⟩ := hstring.of_closing_eq hc hclosing
    have hdot : '.' ∉ other.numberPart := by
      rw [← hnumbers]
      intro hmem
      have hdigit := hmajor.1.2 _ hmem
      revert hdigit
      decide
    obtain ⟨hminor, hsecurity, hpatch⟩ := numbers_eq_none hdot
    obtain ⟨_, _, _, _, _, _, _, _⟩ := other
    subst hpre hbuild hadditional hoptional hminor hsecurity hpatch
    rw [hnumbers]
    simp [Spelling.numberPart, afterDot]

end Family

namespace Family

/-- The way to write a version string that a reading prefers: it fills the numbers from the left,
and has the tag that any other way has. -/
structure IsPreferred (sp : Spelling) (s : List Char) : Prop where
  minor_of_security : sp.security.isSome → sp.minor.isSome
  security_of_patch : sp.patch.isSome → sp.security.isSome
  tag_eq : ∀ other, Writes .jep223 other s → ∀ t ∈ other.pre, sp.pre = some t

/-- How a text is derived from a family: as the family writes it and, where it can write the text
in several ways, in the preferred one. -/
def Derives (f : Family) (sp : Spelling) (s : List Char) : Prop :=
  f.Writes sp s ∧ (f = .jep223 → IsPreferred sp s)

end Family

theorem Spelling.not_stuck_buildPart {sp : Spelling} (h : ∀ w ∈ sp.optional, w ≠ []) :
    ¬ Family.Stuck sp.buildPart := by
  rintro (⟨u, hu⟩ | hu)
  · have hdot : '.' ∈ sp.buildPart.head? := by
      rw [hu]
      rfl
    rcases head?_buildPart hdot with h | h <;> revert h <;> decide
  · obtain ⟨_, _, _, _, _, _ | b, _, _ | w⟩ := sp <;> cases hu
    exact h [] rfl rfl

namespace ReleaseName

theorem writes_jep223 {r : ReleaseName} (h : r.family = .jep223) :
    Family.Writes .jep223 r.spelling r.text :=
  h ▸ r.writes_spelling

theorem pre_ne_none_of_writes {r : ReleaseName} (h : r.IsSettled) (hfamily : r.family = .jep223)
    {other : Spelling} (hother : Family.Writes .jep223 other r.text) {t : List Char}
    (ht : t ∈ other.pre) : r.spelling.pre ≠ none := by
  intro hpre
  obtain ⟨-, -, htag, -, hoptional⟩ := hother.isVersionString
  obtain ⟨p, rfl⟩ := htag t ht
  have hclosing : r.spelling.closing = '-' :: (p.text ++ other.buildPart) := by
    rw [((writes_jep223 hfamily).parts_eq hother).2, Spelling.closing, Option.mem_def.1 ht]
    rfl
  rcases r with _ | _ | _ | ⟨opening, major, numbers, tag, build, suffix⟩
  iterate 3 cases hfamily
  cases tag with
  | some q => cases hpre
  | none =>
    rcases build with _ | b <;> rcases suffix with _ | x
    case jep223.none.none.some =>
      have hx : x.text = p.text ++ other.buildPart := (List.cons.inj hclosing).2
      have hhead : ∀ c ∈ x.text.head?, c.isAlpha = true := by
        rw [hx]
        rintro _ ⟨⟩
        exact p.isAlpha_first
      have hrun := Text.Reading.mem_run.2
        ⟨hx, fun _ hc => p.isAlphanum hc, other.isAlphanum_head?_buildPart⟩
      have hrest := (Prod.mk.inj (List.mem_singleton.1 hrun)).2
      apply Spelling.not_stuck_buildPart hoptional
      rw [hrest]
      exact h hhead
    all_goals cases hclosing

theorem derives_spelling {r : ReleaseName} (h : r.IsSettled) :
    r.family.Derives r.spelling r.text := by
  refine ⟨r.writes_spelling, fun hfamily => ⟨?_, ?_, fun other hother t ht => ?_⟩⟩
  · rcases r with _ | _ | _ | ⟨opening, major, numbers, tag, build, suffix⟩
    case jep223 => simpa [spelling] using numbers.minor_of_security
    all_goals cases hfamily
  · rcases r with _ | _ | _ | ⟨opening, major, numbers, tag, build, suffix⟩
    case jep223 => simpa [spelling] using numbers.security_of_patch
    all_goals cases hfamily
  · obtain ⟨u, hu⟩ := Option.ne_none_iff_exists'.1 (pre_ne_none_of_writes h hfamily hother ht)
    rw [hu, (writes_jep223 hfamily).tag_unique hother hu ht]

theorem isSettled_jep223 {opening : Opening} {major : Leading} {numbers : Numbers}
    {tag : Option Tag} {build : Option Build} {suffix : Option Suffix}
    (h : ∀ x, tag = none → build = none → suffix = some x → x.IsSettled) :
    (jep223 opening major numbers tag build suffix).IsSettled := by
  cases tag <;> cases build <;> cases suffix
  case none.none.some x => exact h x rfl rfl rfl
  all_goals trivial

/-- What is derived with numbers that can be read is a name with the same words. -/
theorem exists_of_derives {f : Family} {sp : Spelling} {s : List Char} (h : f.Derives sp s)
    (hread : sp.IsReadable) :
    ∃ r : ReleaseName, r.family = f ∧ r.text = s ∧ r.spelling = sp ∧ r.IsSettled := by
  by_cases hf : f = .jep223
  · subst hf
    obtain ⟨hminor, hsecurity, htag⟩ := h.2 rfl
    obtain ⟨opening, major, minor, security, patch, tag, build, suffix, rfl, rfl⟩ :=
      exists_parts_of_writes h.1 hread
    let numbers : Numbers :=
      ⟨minor, security, patch, by simpa using hminor, by simpa using hsecurity⟩
    refine ⟨jep223 opening major numbers tag build suffix, rfl, rfl, rfl, ?_⟩
    apply isSettled_jep223
    rintro x rfl rfl rfl
    -- A suffix that is not settled could be written as a tag, so the preferred way has that tag.
    by_contra hsettled
    obtain ⟨p, y, hy⟩ := exists_tagged hsettled
    have htagged := writes_jep223 (r := jep223 opening major numbers (some p) none y) rfl
    rw [text, hy] at htagged
    cases htag _ htagged p.text rfl
  · exact exists_name_of_writes h.1 hf hread

theorem select?_whole {r : ReleaseName} (hr : r.IsSettled) :
    Version.select? .whole false r.text = some r.version := by
  apply Version.select?_eq_some (f := r.family) ?_ ⟨[], found_whole hr⟩ rfl
  intro g hg w hw
  have hmem := List.mem_of_find?_eq_some hw
  by_cases hfamily : r.family = .jep223
  · rw [hfamily] at hg
    rcases List.mem_cons.1 hg with rfl | hg
    · obtain ⟨r', hfamily', htext, rfl, -⟩ := exists_of_mem_found_whole hmem
      have hnightly := r'.writes_spelling
      rw [hfamily', htext] at hnightly
      have hspelling := r'.version?_spelling
      rw [← hnightly.eq_of_nightly (writes_jep223 hfamily), r.version?_spelling] at hspelling
      exact (Option.some.inj hspelling).symm
    · rcases List.mem_cons.1 hg with rfl | hg
      · rw [Version.found_eq_nil (not_anchored_legacy (.inr hfamily))] at hw
        cases hw
      · obtain rfl := List.mem_singleton.1 hg
        rcases r with _ | _ | _ | ⟨opening, major, numbers, tag, build, suffix⟩
        case jep223 =>
          rw [Version.found, Text.Reading.whole?, updateName_text_eq_nil] at hw
          cases hw
        all_goals cases hfamily
  · have hsuffix := hasNoSuffix_of_family_ne hfamily
    rw [found_earlier hsuffix (fun h => absurd h hfamily) hg] at hw
    cases hw

end ReleaseName

namespace Version

theorem eq_of_parse_eq_error {extent : Extent} {p : Bool} {s : String} {e : UnrecognizedVersion}
    (h : parse extent p s = .error e) : e = ⟨s⟩ := by
  rw [parse] at h
  split at h
  · cases h
  · exact (Except.error.inj h).symm

/-- The whole of a text is read exactly where its normal form is derived from a family with
numbers that can be read; the version is that of the derivation, and the error names the input. -/
theorem parse_whole_grammar (input : String) :
    (∀ n, IsNormalForm input.toList n ↔ n = normalizeName input) ∧
    (∀ v, parse .whole false input = .ok v ↔
      ∃ f sp, Family.Derives f sp (normalizeName input) ∧ sp.IsReadable ∧
        v = sp.components.version) ∧
    ∀ e, parse .whole false input = .error e ↔
      e = ⟨input⟩ ∧ ∀ f sp, Family.Writes f sp (normalizeName input) → ¬ sp.IsReadable := by
  have hread {f : Family} {sp : Spelling} (hw : f.Writes sp (normalizeName input))
      (hsp : sp.IsReadable) : ∃ v, parse .whole false input = .ok v := by
    obtain ⟨r, -, htext, hr⟩ := ReleaseName.exists_of_writes hw hsp
    exact ⟨r.version, by rw [parse_eq_ok, ← htext, ReleaseName.select?_whole hr]⟩
  have hok (v : Version) : parse .whole false input = .ok v ↔
      ∃ f sp, Family.Derives f sp (normalizeName input) ∧ sp.IsReadable ∧
        v = sp.components.version := by
    rw [parse_eq_ok]
    constructor
    · intro h
      obtain ⟨f, hfound, -⟩ := exists_of_select? h
      obtain ⟨r, rfl, htext, rfl, hr⟩ := ReleaseName.exists_of_mem_found_whole hfound
      refine ⟨r.family, r.spelling, htext ▸ ReleaseName.derives_spelling hr, ?_⟩
      exact Spelling.version?_eq_some_iff.1 r.version?_spelling
    · rintro ⟨f, sp, hderives, hsp⟩
      obtain ⟨r, -, htext, rfl, hr⟩ := ReleaseName.exists_of_derives hderives hsp.1
      have hversion := Spelling.version?_eq_some_iff.2 hsp
      rw [r.version?_spelling] at hversion
      rw [← htext, ReleaseName.select?_whole hr, hversion]
  refine ⟨fun n => isNormalForm_iff, hok, fun e => ?_⟩
  constructor
  · intro h
    refine ⟨eq_of_parse_eq_error h, fun f sp hw hsp => ?_⟩
    obtain ⟨v, hv⟩ := hread hw hsp
    rw [h] at hv
    cases hv
  · rintro ⟨rfl, hnone⟩
    cases hparse : parse .whole false input with
    | ok v =>
      obtain ⟨f, sp, hderives, hsp, -⟩ := (hok v).1 hparse
      exact absurd hsp (hnone f sp hderives.1)
    | error e => rw [eq_of_parse_eq_error hparse]

/-- The word behind the first hyphen is the tag only where what follows it can be the suffix. -/
example :
    parse .whole false "11-ea-x" =
        .ok ⟨⟨11, 0, 0, some "ea", none, 0, none, some "x"⟩, "11.0.0-ea+0.x"⟩ ∧
      parse .whole false "11-ea.x" =
        .ok ⟨⟨11, 0, 0, none, none, 0, none, some "ea.x"⟩, "11.0.0+0.ea.x"⟩ := by
  decide +kernel

end Version

end ReleaseCatalog

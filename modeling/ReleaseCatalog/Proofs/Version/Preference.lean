import ReleaseCatalog.Proofs.Text.Reading
import ReleaseCatalog.Proofs.Version.Grammar

namespace ReleaseCatalog

open Text (Reading isDigit)
open Text.Reading

namespace Family

theorem isDigit_of_leads {c : Char} (h : ('1' ≤ c && c ≤ '9') = true) : isDigit c = true := by
  apply Text.isDigit_of_isAsciiDigit
  rw [Bool.and_eq_true, decide_eq_true_eq, decide_eq_true_eq] at h
  rw [Text.isAsciiDigit, Bool.and_eq_true, decide_eq_true_eq, decide_eq_true_eq]
  exact ⟨Char.le_trans (by decide) h.1, h.2⟩

theorem ne_of_isDigit {c d : Char} (hc : isDigit c = true) (hd : isDigit d = false) : c ≠ d := by
  rintro rfl
  rw [hc] at hd
  cases hd

theorem first?_product (o : Opening) {s : List Char} (hs : ∀ c ∈ s.head?, isDigit c = true) :
    first? product (o.text ++ s) = some ((), s) := by
  have hj : ∀ c ∈ s.head?, c ≠ 'j' := fun c hc => ne_of_isDigit (hs c hc) (by decide)
  have hhyphen : ∀ c ∈ s.head?, c ≠ '-' := fun c hc => ne_of_isDigit (hs c hc) (by decide)
  rw [product]
  cases o with
  | bare =>
    apply first?_bind (first?_maybe_none _) rfl
    exact bind_eq_nil (literal_eq_nil hj)
  | jdk =>
    have hmaybe : first? (maybe (literal ['-'])) s = some (none, s) :=
      first?_maybe_none (literal_eq_nil hhyphen)
    have hjdk := first?_literal ['j', 'd', 'k'] s
    exact first?_bind (first?_maybe_some (first?_bind hjdk hmaybe)) rfl
  | hyphenated =>
    have hmaybe : first? (maybe (literal ['-'])) ('-' :: s) = some (some (), s) :=
      first?_maybe_some (first?_literal ['-'] s)
    have hjdk := first?_literal ['j', 'd', 'k'] ('-' :: s)
    exact first?_bind (first?_maybe_some (first?_bind hjdk hmaybe)) rfl

theorem first?_leading (m : Leading) {t : List Char} (ht : ∀ c ∈ t.head?, isDigit c = false) :
    first? leading (m.digits ++ t) = some (m.digits, t) := by
  have hleads := m.leads
  have hdigits := fun c => m.isDigit (c := c)
  cases hm : m.digits with
  | nil => exact absurd hm m.ne_nil
  | cons c w =>
    rw [hm] at hleads hdigits
    rw [leading, headed]
    apply first?_bind (first?_one (hleads c rfl) (w ++ t))
    exact first?_bind (first?_run (fun d hd => hdigits d (List.mem_cons_of_mem _ hd)) ht) rfl

theorem first?_many_digits (m : Decimal) {t : List Char} (ht : ∀ c ∈ t.head?, isDigit c = false) :
    first? (many isDigit) (m.digits ++ t) = some (m.digits, t) :=
  first?_many m.ne_nil (fun _ hc => m.isDigit hc) ht

theorem first?_numberAfter (mark : List Char) (m : Decimal) {t : List Char}
    (ht : ∀ c ∈ t.head?, isDigit c = false) :
    first? (numberAfter mark) (mark ++ (m.digits ++ t)) = some (m.digits, t) :=
  first?_bind (first?_literal mark _) (first?_many_digits m ht)

theorem first?_dotted (m : Option Decimal) {t : List Char} (ht : ∀ c ∈ t.head?, isDigit c = false)
    (hdot : m = none → ∀ c ∈ t.head?, c ≠ '.') :
    first? (maybe (numberAfter ['.'])) (dotted m ++ t) = some (m.map (·.digits), t) := by
  cases m with
  | none => exact first?_maybe_none (bind_eq_nil (literal_eq_nil (hdot rfl)))
  | some m => exact first?_maybe_some (first?_numberAfter ['.'] m ht)

theorem first?_buildAfter (mark : Char) (marks : List Char) (build : Option Build) {t : List Char}
    (ht : ∀ c ∈ t.head?, isDigit c = false ∧ c ≠ '.') (hmark : ∀ c ∈ t.head?, c ≠ mark) :
    first? (maybe (buildAfter (mark :: marks)))
        (build.elim [] (Build.text (mark :: marks)) ++ t) =
      some (build.map fun b => (b.number.digits, b.additional.map (·.digits)), t) := by
  cases build with
  | none => exact first?_maybe_none (bind_eq_nil (bind_eq_nil (literal_eq_nil hmark)))
  | some b =>
    obtain ⟨m, a⟩ := b
    have hdot : ∀ c ∈ (dotted a ++ t).head?, isDigit c = false := by
      cases a with
      | none => exact fun c hc => (ht c hc).1
      | some a =>
        intro c hc
        cases hc
        decide
    have hadditional := first?_dotted a (fun c hc => (ht c hc).1) (fun _ c hc => (ht c hc).2)
    apply first?_maybe_some
    rw [buildAfter]
    show first? _ ((mark :: marks ++ (m.digits ++ dotted a)) ++ t) = _
    rw [List.append_assoc, List.append_assoc]
    exact first?_bind (first?_numberAfter _ m hdot) (first?_bind hadditional rfl)

theorem first?_go {fields : List (List Char)} (hlen : ∀ w ∈ fields, w.length = 2)
    (hdigits : ∀ w ∈ fields, ∀ c ∈ w, isDigit c = true) (t : List Char) :
    first? (date.go fields.length) ((fields.flatMap fun w => '-' :: w) ++ t) =
      some (fields.flatMap fun w => '-' :: w, t) := by
  induction fields with
  | nil => rfl
  | cons w fields ih =>
    have hw := hlen w (List.mem_cons_self ..)
    have hexactly := first?_exactly (hdigits w (List.mem_cons_self ..))
      ((fields.flatMap fun w => '-' :: w) ++ t)
    have hrest := ih (fun v hv => hlen v (List.mem_cons_of_mem _ hv))
      (fun v hv => hdigits v (List.mem_cons_of_mem _ hv))
    rw [hw] at hexactly
    rw [List.length_cons, date.go, List.flatMap_cons, List.cons_append, List.cons_append,
      List.append_assoc]
    exact first?_bind (first?_literal ['-'] _) (first?_bind hexactly (first?_bind hrest rfl))

theorem first?_date (d : Stamp) (t : List Char) : first? date (d.text ++ t) = some (d.text, t) := by
  have hyear := first?_exactly d.isDigit_year ((d.fields.flatMap fun w => '-' :: w) ++ t)
  have hfields := first?_go d.length_field d.isDigit_field t
  rw [d.length_year] at hyear
  rw [d.length_fields] at hfields
  rw [date, Stamp.text, List.append_assoc]
  exact first?_bind hyear (first?_bind hfields rfl)

theorem isDigit_head?_mark (marked : Bool) (s : List Char) :
    ∀ c ∈ ((if marked then ['u'] else []) ++ '-' :: s).head?, isDigit c = false := by
  intro c hc
  cases marked <;> cases hc <;> decide

theorem first?_nightlyName (opening : Opening) (major : Leading) (marked : Bool) (date : Stamp)
    (t : List Char) :
    first? nightlyName ((ReleaseName.nightly opening major marked date).text ++ t) =
      some ((ReleaseName.nightly opening major marked date).spelling, t) := by
  have hmaybe : ∃ u, first? (maybe (literal ['u']))
      ((if marked then ['u'] else []) ++ '-' :: (date.text ++ t)) =
        some (u, '-' :: (date.text ++ t)) := by
    cases marked with
    | true => exact ⟨_, first?_maybe_some (first?_literal ['u'] _)⟩
    | false => exact ⟨_, first?_maybe_none rfl⟩
  obtain ⟨u, hu⟩ := hmaybe
  rw [nightlyName, ReleaseName.text]
  simp only [List.append_assoc, List.cons_append]
  apply first?_bind (first?_product opening (major.isDigit_head? _))
  apply first?_bind (first?_leading major (isDigit_head?_mark marked _))
  apply first?_bind hu
  apply first?_bind (first?_literal ['-'] _)
  exact first?_bind (first?_date date t) rfl

theorem isDigit_head?_buildText {mark : Char} (hmark : isDigit mark = false) (marks : List Char)
    (build : Option Build) {t : List Char} (ht : ∀ c ∈ t.head?, isDigit c = false) :
    ∀ c ∈ (build.elim [] (Build.text (mark :: marks)) ++ t).head?, isDigit c = false := by
  cases build with
  | none => exact ht
  | some b =>
    intro c hc
    cases hc
    exact hmark

theorem first?_legacyName (line : Leading) (oneDigit : line.digits.length = 1) (security : Decimal)
    (build : Option Build) :
    first? legacyName (ReleaseName.legacy line oneDigit security build).text =
      some ((ReleaseName.legacy line oneDigit security build).spelling, []) := by
  have hhyphen : isDigit '-' = false := by decide
  have hbuild := isDigit_head?_buildText hhyphen ['b'] build (t := []) (by simp)
  have hafter := first?_buildAfter '-' ['b'] build (t := []) (by simp) (by simp)
  have hleads := line.leads
  rw [List.append_nil] at hbuild hafter
  obtain ⟨c, hc⟩ := List.length_eq_one_iff.1 oneDigit
  rw [legacyName, ReleaseName.text]
  apply first?_bind (first?_literal "1.".toList _)
  rw [hc] at hleads ⊢
  apply first?_bind (first?_one (hleads c rfl) _)
  apply first?_bind (first?_literal ".0_".toList _)
  apply first?_bind (first?_many_digits security hbuild)
  apply first?_bind hafter
  rw [ReleaseName.spelling, hc]
  cases build <;> rfl

theorem first?_updateName (jdk : Bool) (major : Leading) (security : Decimal)
    (build : Option Build) :
    first? updateName (ReleaseName.update jdk major security build).text =
      some ((ReleaseName.update jdk major security build).spelling, []) := by
  have hhyphen : isDigit '-' = false := by decide
  have hbuild := isDigit_head?_buildText hhyphen ['b'] build (t := []) (by simp)
  have hafter := first?_buildAfter '-' ['b'] build (t := []) (by simp) (by simp)
  rw [List.append_nil] at hbuild hafter
  have hproduct (t : List Char) (ht : ∀ c ∈ t.head?, isDigit c = true) :
      ∃ u, first? (maybe (literal "jdk".toList)) ((if jdk then "jdk".toList else []) ++ t) =
        some (u, t) := by
    cases jdk with
    | true => exact ⟨_, first?_maybe_some (first?_literal "jdk".toList t)⟩
    | false =>
      refine ⟨_, first?_maybe_none (literal_eq_nil ?_)⟩
      exact fun c hc => ne_of_isDigit (ht c hc) (by decide)
  rw [updateName, ReleaseName.text]
  obtain ⟨u, hu⟩ := hproduct _ (major.isDigit_head? _)
  apply first?_bind hu
  apply first?_bind (first?_leading major (by simp; decide))
  apply first?_bind (first?_literal ['u'] _)
  apply first?_bind (first?_many_digits security hbuild)
  apply first?_bind hafter
  cases build <;> rfl

def tagAfter : Reading (List Char) := do
  literal ['-']
  headed Char.isAlpha Char.isAlphanum

def suffixAfter : Reading (List Char) := do
  literal ['-']
  many isSuffixChar

/-- What follows the tag of a version string. -/
def closing (front : Spelling) (pre : Option (List Char)) : Reading Spelling := do
  let build ← maybe (buildAfter ['+'])
  let optional ← maybe suffixAfter
  return { front with pre, optional, build := build.map (·.1), additional := build.bind (·.2) }

/-- What follows the numbers of a version string. -/
def tail (front : Spelling) : Reading Spelling := do
  let pre ← maybe tagAfter
  closing front pre

def front (major : Leading) (numbers : Numbers) : Spelling where
  major := major.digits
  minor := numbers.minor.map (·.digits)
  security := numbers.security.map (·.digits)
  patch := numbers.patch.map (·.digits)

theorem preferred?_jep223Name {ok : List Char → Bool} {opening : Opening} {major : Leading}
    {numbers : Numbers} {t : List Char} {way : Spelling × List Char}
    (ht : ∀ c ∈ t.head?, isDigit c = false ∧ c ≠ '.')
    (h : preferred? ok (tail (front major numbers)) t = some way) :
    preferred? ok jep223Name (opening.text ++ (major.digits ++ (numbers.text ++ t))) =
      some way := by
  have hdigit (m : Option Decimal) {s : List Char} (hs : ∀ c ∈ s.head?, isDigit c = false) :
      ∀ c ∈ (dotted m ++ s).head?, isDigit c = false := by
    cases m with
    | none => exact hs
    | some m =>
      intro c hc
      cases hc
      decide
  have hend : ∀ c ∈ t.head?, isDigit c = false := fun c hc => (ht c hc).1
  have hpatch := hdigit numbers.patch hend
  have hsecurity := hdigit numbers.security hpatch
  have hminor := hdigit numbers.minor hsecurity
  have hnone {m : Option Decimal} (hm : m = none) (s : List Char) : dotted m ++ s = s := by
    rw [hm]
    rfl
  rw [jep223Name, Numbers.text]
  simp only [List.append_assoc]
  apply preferred?_bind (first?_product opening (major.isDigit_head? _))
  apply preferred?_bind (first?_leading major hminor)
  -- A missing number leaves no later one, so the text goes on with `t`.
  have hlater (hs : numbers.security = none) : numbers.patch = none := by
    have h := numbers.security_of_patch
    rw [hs] at h
    simpa using h
  have hafter (hm : numbers.minor = none) : numbers.security = none := by
    have h := numbers.minor_of_security
    rw [hm] at h
    simpa using h
  have hdot : ∀ c ∈ t.head?, c ≠ '.' := fun c hc => (ht c hc).2
  apply preferred?_bind (first?_dotted numbers.minor hsecurity fun hm => by
    rw [hnone (hafter hm), hnone (hlater (hafter hm))]
    exact hdot)
  apply preferred?_bind (first?_dotted numbers.security hpatch fun hs => by
    rw [hnone (hlater hs)]
    exact hdot)
  exact preferred?_bind (first?_dotted numbers.patch hend fun _ => hdot) h

theorem first?_tagAfter (p : Tag) {t : List Char} (ht : ∀ c ∈ t.head?, c.isAlphanum = false) :
    first? tagAfter ('-' :: (p.text ++ t)) = some (p.text, t) := by
  rw [tagAfter, headed]
  apply first?_bind (first?_literal ['-'] (p.text ++ t))
  apply first?_bind (first?_one p.isAlpha_first (p.others ++ t))
  exact first?_bind (first?_run p.isAlphanum_others ht) rfl

theorem tagAfter_eq_nil {s : List Char} (h : ∀ c ∈ s.head?, c.isAlpha = false) :
    tagAfter ('-' :: s) = [] := by
  show (headed Char.isAlpha Char.isAlphanum) s ++ [] = []
  rw [List.append_nil, headed]
  apply bind_eq_nil
  cases s with
  | nil => rfl
  | cons c s =>
    rw [one, h c rfl]
    rfl

theorem first?_suffixAfter (suffix : Option Suffix) :
    first? (maybe suffixAfter) (suffix.elim [] fun x => '-' :: x.text) =
      some (suffix.map (·.text), []) := by
  cases suffix with
  | none => exact first?_maybe_none rfl
  | some x =>
    have hmany := first?_many x.ne_nil x.isSuffixChar (t := []) (by simp)
    rw [List.append_nil] at hmany
    exact first?_maybe_some (first?_bind (first?_literal ['-'] x.text) hmany)

theorem preferred?_closing {ok : List Char → Bool} (hok : ok [] = true) (front : Spelling)
    (pre : Option (List Char)) (build : Option Build) (suffix : Option Suffix) :
    preferred? ok (closing front pre)
        (build.elim [] (Build.text ['+']) ++ suffix.elim [] fun x => '-' :: x.text) =
      some ({ front with
        pre, build := ReleaseName.buildWord build
        additional := ReleaseName.additionalWord build
        optional := suffix.map (·.text) }, []) := by
  have hhead : ∀ c ∈ (suffix.elim [] fun x => '-' :: x.text).head?, c = '-' := by
    intro c hc
    cases suffix with
    | none => cases hc
    | some x =>
      cases hc
      rfl
  have hbuild := first?_buildAfter '+' [] build
    (fun c hc => by rw [hhead c hc]; decide) (fun c hc => by rw [hhead c hc]; decide)
  rw [closing]
  apply preferred?_bind hbuild
  apply preferred?_bind (first?_suffixAfter suffix)
  cases build with
  | none => exact preferred?_pure hok
  | some b => exact preferred?_pure hok

/-- Everything behind the numbers is read as written, unless a suffix stands where a tag would. -/
theorem preferred?_tail {ok : List Char → Bool} (hok : ok [] = true) (front : Spelling)
    {tag : Option Tag} {build : Option Build} {suffix : Option Suffix}
    (h : tag = none → build = none → ∀ x ∈ suffix, ∀ c ∈ x.text.head?, c.isAlpha = false) :
    preferred? ok (tail front) (ReleaseName.ending tag build suffix) =
      some ({ front with
        pre := tag.map (·.text)
        build := ReleaseName.buildWord build
        additional := ReleaseName.additionalWord build
        optional := suffix.map (·.text) }, []) := by
  have hclosing := preferred?_closing hok front (tag.map (·.text)) build suffix
  have hhead : ∀ c ∈ (build.elim [] (Build.text ['+']) ++
      suffix.elim [] fun x => '-' :: x.text).head?, c.isAlphanum = false := by
    intro c hc
    cases build <;> cases suffix <;> cases hc <;> decide
  rw [tail, ReleaseName.ending]
  refine preferred?_bind ?_ hclosing
  cases tag with
  | some p => exact first?_maybe_some (first?_tagAfter p hhead)
  | none =>
    apply first?_maybe_none
    cases build with
    | some b => rfl
    | none =>
      cases suffix with
      | none => rfl
      | some x => exact tagAfter_eq_nil (h rfl rfl x rfl)

/-- A rest that neither a build nor a suffix of a version string can go on with. -/
def Stuck (s : List Char) : Prop := (∃ u, s = '.' :: u) ∨ s = ['-']

theorem closing_of_stuck {s : List Char} (h : Stuck s) (front : Spelling)
    (pre : Option (List Char)) :
    closing front pre s =
      [({ front with pre, build := none, additional := none, optional := none }, s)] := by
  rcases h with ⟨u, rfl⟩ | rfl <;> rfl

end Family

/-- A suffix in the place of a tag is one that no tag could begin. -/
def Suffix.IsSettled (x : Suffix) : Prop :=
  (∀ c ∈ x.text.head?, c.isAlpha = true) → Family.Stuck (x.text.dropWhile Char.isAlphanum)

namespace ReleaseName

/-- Whether the name, read as a whole, is read as it was written. -/
def IsSettled : ReleaseName → Prop
  | jep223 _ _ _ none none (some x) => x.IsSettled
  | _ => True

/-- Whether the suffix stands directly behind the numbers and begins as a tag does. -/
def HasTagLikeSuffix : ReleaseName → Prop
  | jep223 _ _ _ none none (some x) => ∀ c ∈ x.text.head?, c.isAlpha = true
  | _ => False

theorem head?_ending (tag : Option Tag) (build : Option Build) (suffix : Option Suffix) :
    ∀ c ∈ (ending tag build suffix).head?, isDigit c = false ∧ c ≠ '.' := by
  intro c hc
  cases tag <;> cases build <;> cases suffix <;> cases hc <;> decide

theorem preferred?_text {ok : List Char → Bool} (hok : ok [] = true) {opening : Opening}
    {major : Leading} {numbers : Numbers} {tag : Option Tag} {build : Option Build}
    {suffix : Option Suffix}
    (h : tag = none → build = none → ∀ x ∈ suffix, ∀ c ∈ x.text.head?, c.isAlpha = false) :
    preferred? ok Family.jep223Name (jep223 opening major numbers tag build suffix).text =
      some ((jep223 opening major numbers tag build suffix).spelling, []) :=
  Family.preferred?_jep223Name (head?_ending tag build suffix)
    (Family.preferred?_tail hok (Family.front major numbers) h)

theorem first?_text (r : ReleaseName) (h : ¬ r.HasTagLikeSuffix) :
    first? r.family.name r.text = some (r.spelling, []) := by
  cases r with
  | nightly opening major marked date =>
    have hname := Family.first?_nightlyName opening major marked date []
    rwa [List.append_nil] at hname
  | legacy line oneDigit security build =>
    exact Family.first?_legacyName line oneDigit security build
  | update jdk major security build => exact Family.first?_updateName jdk major security build
  | jep223 opening major numbers tag build suffix =>
    show first? Family.jep223Name _ = _
    rw [first?_eq_preferred?]
    apply preferred?_text rfl
    rintro rfl rfl x hx c hc
    obtain rfl := Option.mem_def.1 hx
    apply eq_false_of_ne_true
    intro halpha
    apply h
    intro d hd
    rw [Option.mem_def.1 hc] at hd
    cases hd
    exact halpha

theorem tagAfter_suffix {x : Suffix} (hx : ∀ c ∈ x.text.head?, c.isAlpha = true) :
    Family.tagAfter ('-' :: x.text) =
      [(x.text.takeWhile Char.isAlphanum, x.text.dropWhile Char.isAlphanum)] := by
  cases hxt : x.text with
  | nil => exact absurd hxt x.ne_nil
  | cons c s =>
    have hc : c.isAlpha = true := hx c (by rw [hxt]; rfl)
    have hc' : c.isAlphanum = true := by rw [Char.isAlphanum, hc, Bool.true_or]
    show (Family.headed Char.isAlpha Char.isAlphanum) (c :: s) ++ [] = _
    rw [List.append_nil, List.takeWhile_cons_of_pos hc', List.dropWhile_cons_of_pos hc']
    show (one Char.isAlpha (c :: s)).flatMap _ = _
    rw [one, if_pos hc]
    rfl

theorem whole?_text {r : ReleaseName} (h : r.IsSettled) :
    whole? r.family.name r.text = some r.spelling := by
  by_cases hr : r.HasTagLikeSuffix
  · rcases r with _ | _ | _ | ⟨opening, major, numbers, tag, build, suffix⟩
    iterate 3 exact hr.elim
    rcases tag with _ | p <;> rcases build with _ | b <;> rcases suffix with _ | x
    case jep223.none.none.some =>
      -- The tag that the suffix begins with leads nowhere, so the reading goes on without it.
      have hstuck := h hr
      have hskip : preferred? List.isEmpty (Family.tail (Family.front major numbers))
          (ending none none (some x)) =
            some ((jep223 opening major numbers none none x).spelling, []) := by
        rw [Family.tail]
        refine (preferred?_maybe_bind ?_).trans
          (Family.preferred?_closing rfl (Family.front major numbers) none none (some x))
        intro w u hw
        have hways : Family.tagAfter (ending none none (some x)) = _ := tagAfter_suffix hr
        rw [hways, List.mem_singleton] at hw
        cases hw
        rw [preferred?, Family.closing_of_stuck hstuck]
        rcases hstuck with ⟨v, hv⟩ | hv <;> rw [hv] <;> rfl
      have hname : preferred? List.isEmpty Family.jep223Name
          (jep223 opening major numbers none none (some x)).text = _ :=
        Family.preferred?_jep223Name (head?_ending none none (some x)) hskip
      rw [whole?_eq_preferred?]
      exact congrArg (Option.map Prod.fst) hname
    all_goals exact hr.elim
  · exact whole?_of_first? (r.first?_text hr)

/-- A scan takes the beginning of a tag-like suffix for a tag, and leaves what follows it. -/
theorem first?_text_of_hasTagLikeSuffix {opening : Opening} {major : Leading} {numbers : Numbers}
    {x : Suffix} (hx : ∀ c ∈ x.text.head?, c.isAlpha = true) (h : x.IsSettled) :
    first? Family.jep223Name (jep223 opening major numbers none none x).text =
      some ({ (jep223 opening major numbers none none x).spelling with
        pre := some (x.text.takeWhile Char.isAlphanum), optional := none },
        x.text.dropWhile Char.isAlphanum) := by
  have hstuck := h hx
  have htail : preferred? (fun _ => true) (Family.tail (Family.front major numbers))
      (ending none none (some x)) =
        some ({ (jep223 opening major numbers none none x).spelling with
          pre := some (x.text.takeWhile Char.isAlphanum), optional := none },
          x.text.dropWhile Char.isAlphanum) := by
    have hways : Family.tagAfter (ending none none (some x)) = _ := tagAfter_suffix hx
    have hmaybe : first? (maybe Family.tagAfter) (ending none none (some x)) =
        some (some (x.text.takeWhile Char.isAlphanum), x.text.dropWhile Char.isAlphanum) := by
      apply first?_maybe_some
      rw [first?, hways]
      rfl
    refine preferred?_bind hmaybe ?_
    rw [preferred?, Family.closing_of_stuck hstuck]
    rfl
  rw [first?_eq_preferred?]
  exact Family.preferred?_jep223Name (head?_ending none none (some x)) htail

end ReleaseName

end ReleaseCatalog
